import Minica.Service

/-!
# Calls and their interleavings

A `Call` is one request to the service; `AppService.perform` is the program it runs.  Any number
of calls run at once over one database, each under its own identity, which is also the owner it
writes into the lock table.  A schedule starts calls and lets them take one atomic action each,
on any clock reading and any random draws; so a lock may expire and be taken over between any
two actions of its holder.

Wiping the database is the one operation left out: it deletes every table at once.
-/

open Rust

namespace Minica

/-- A request to the service. -/
inductive Call
  | listCas
  | getCa (id : Str)
  | deleteCa (id : Str)
  | restoreCa (id : Str)
  | createCa (req : CreateCaRequest)
  | importCa (id : Option Str) (req : ImportCaRequest)
  | renewCa (caId : Str) (days : Int)
  | downloadCa (caId : Str) (kind : Download)
  | crlDer (caId : Str)
  | listCerts (caId : Str)
  | getCert (caId certId : Str)
  | deleteCert (caId certId : Str)
  | restoreCert (caId certId : Str)
  | revokeCert (caId certId reason : Str)
  | createCert (caId : Str) (req : CreateCertRequest)
  | importCert (caId : Str) (certId : Option Str) (req : ImportCertRequest) (csrPem : Option Bytes)
  | renewCert (caId certId : Str) (days : Int)
  | downloadCert (caId certId : Str) (kind : Download)
  | repairStaleMetadata
  | exportBackupYaml
  | importBackupYaml (text : Str)
  | createUser (req : CreateUserRequest)
  | deleteUser (id : Str)
  | createTemplate (req : TemplateRequest)
  | updateTemplate (id : Str) (req : TemplateRequest)
  | deleteTemplate (id : Str)

/-- Whether the call replaces an empty database by a backup. -/
def Call.restores : Call → Bool
  | .importBackupYaml _ => true
  | _ => false

def Call.Restores (c : Call) : Prop := c.restores = true

instance (c : Call) : Decidable c.Restores := inferInstanceAs (Decidable (_ = _))

/-- Whether the call re-derives stored metadata. -/
def Call.repairs : Call → Bool
  | .repairStaleMetadata => true
  | .importBackupYaml _ => true
  | _ => false

def Call.Repairs (c : Call) : Prop := c.repairs = true

instance (c : Call) : Decidable c.Repairs := inferInstanceAs (Decidable (_ = _))

/-- A program run for its effect: the result, failure included, goes back to the caller. -/
def Action.forEffect {α : Type} (p : Action α) : Conc.Prog Db Env Unit :=
  p.run.bind fun _ ↦ .ret ()

namespace AppService

variable (svc : AppService)

/-- The program of a call, run under the identity `owner`. -/
def perform (owner : Str) : Call → Conc.Prog Db Env Unit
  | .listCas => Action.forEffect svc.listCas
  | .getCa id => Action.forEffect (svc.getCa id)
  | .deleteCa id => Action.forEffect (deleteCa id)
  | .restoreCa id => Action.forEffect (restoreCa id)
  | .createCa req => Action.forEffect (svc.createCa req)
  | .importCa id req => Action.forEffect (svc.importCaWithId id req)
  | .renewCa caId days => Action.forEffect (svc.renewCa owner caId days)
  | .downloadCa caId kind => Action.forEffect (svc.downloadCa caId kind)
  | .crlDer caId => Action.forEffect (svc.crlDer caId)
  | .listCerts caId => Action.forEffect (listCerts caId)
  | .getCert caId certId => Action.forEffect (getCert caId certId)
  | .deleteCert caId certId => Action.forEffect (deleteCert caId certId)
  | .restoreCert caId certId => Action.forEffect (restoreCert caId certId)
  | .revokeCert caId certId reason => Action.forEffect (svc.revokeCert owner caId certId reason)
  | .createCert caId req => Action.forEffect (svc.createCert owner caId req)
  | .importCert caId certId req csrPem =>
      Action.forEffect (svc.importCertWith owner caId certId req csrPem)
  | .renewCert caId certId days => Action.forEffect (svc.renewCert owner caId certId days)
  | .downloadCert caId certId kind => Action.forEffect (downloadCert caId certId kind)
  | .repairStaleMetadata => Action.forEffect svc.repairStaleMetadata
  | .exportBackupYaml => Action.forEffect svc.exportBackupYaml
  | .importBackupYaml text => Action.forEffect (svc.importBackupYaml text)
  | .createUser req => Action.forEffect (svc.createUser req)
  | .deleteUser id => Action.forEffect (deleteUser id)
  | .createTemplate req => Action.forEffect (svc.createTemplate req)
  | .updateTemplate id req => Action.forEffect (svc.updateTemplate id req)
  | .deleteTemplate id => Action.forEffect (deleteTemplate id)

end AppService

/-- The database and the calls in progress. -/
abbrev World := Conc.World Str Call Db Env

/-- A choice of the scheduler. -/
abbrev Event := Conc.Event Str Call Env

namespace World

/-- A database nobody is using. -/
def idle (db : Db) : World := ⟨db, []⟩

variable (svc : AppService)

/-- Some schedule leads from the first world to the second, by steps that satisfy `C`. -/
abbrev RunWhere (C : World → World → Prop) (w w' : World) : Prop :=
  Conc.World.Run svc.perform C w w'

/-- Some schedule leads from the first world to the second. -/
abbrev Run (w w' : World) : Prop := RunWhere svc (fun _ _ ↦ True) w w'

/-- The scheduler takes the first world to the second in one step. -/
def Step (w w' : World) : Prop := ∃ e : Event, w.step svc.perform e = some w'

end World

end Minica
