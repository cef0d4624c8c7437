import Minica.Lib.IpAddr
import Minica.Names
import Minica.Revocation
import Minica.Login
import Minica.Truststore
import Minica.Bundles
import Minica.Renewals
import Minica.Deleted
import Minica.Outcomes
import Minica.Templates
import Minica.Restores
import Minica.RoundTrip
import Minica.Exports
import Minica.Superseded
import Minica.Rfc2253
import Minica.Lib.Subj
import Minica.Lib.Conf
import Minica.Injection
import Minica.Sans
import Minica.Profiles
import Minica.Lifetimes
import Minica.Reuse
import Minica.Reproduced
import Minica.Advice
import Minica.I18n
import Minica.Pages
import Minica.Statuses
import Minica.LoginCache
import Minica.EnvValues
import Minica.Kdf
import Minica.Pkcs12
import Minica.Pieces
import Minica.Accounts
import Minica.Repeats
import Minica.Prefill
import Minica.Artifacts
import Minica.Rotation
import Minica.Repairs
import Minica.Rerun
import Minica.Lib.Base64Url
import Minica.Lib.Cookies
import Minica.Lib.Ddl
import Minica.Migrations
import Minica.Portal
import Minica.Authority
import Minica.Sessions
import Minica.Provenance
import Minica.Lib.Url
import Minica.Redirects
import Minica.Lib.Gate
import Minica.Handlers
import Minica.Access
import Minica.Lib.Lockstep
import Minica.Published
