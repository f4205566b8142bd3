import Peryx.Core.Text
import Peryx.Library.Table

/-!
# The Simple API's data (peryx-ecosystem-pypi/src/simple/)
-/

namespace Peryx.Pypi

inductive Yanked where
  | no
  | yes
  | reason (text : Str)
  deriving Repr, DecidableEq

inductive ProjectStatus where
  | active
  | archived
  | quarantined
  | deprecated
  deriving Repr, DecidableEq

def ProjectStatus.marker : ProjectStatus → Str
  | .active => str "active"
  | .archived => str "archived"
  | .quarantined => str "quarantined"
  | .deprecated => str "deprecated"

def ProjectStatus.fromMarker (status : Str) : Option ProjectStatus :=
  [.active, .archived, .quarantined, .deprecated].find? fun known => known.marker == status

def ProjectStatus.allowsUploads : ProjectStatus → Bool
  | .active | .deprecated => true
  | .archived | .quarantined => false

def ProjectStatus.offersDownloads : ProjectStatus → Bool
  | .quarantined => false
  | .active | .archived | .deprecated => true

abbrev Hashes := Table Str Str

inductive CoreMetadata where
  | absent
  | available
  | hashes (hashes : Hashes)

def CoreMetadata.isAbsent : CoreMetadata → Bool
  | .absent => true
  | .available | .hashes _ => false

inductive Provenance where
  | absent
  | null
  | url (url : Str)
  deriving Repr, DecidableEq

structure File where
  filename : Str
  url : Str
  hashes : Hashes := ∅
  requiresPython : Option Str := none
  size : Option Nat := none
  uploadTime : Option Str := none
  yanked : Yanked := .no
  coreMetadata : CoreMetadata := .absent
  distInfoMetadata : CoreMetadata := .absent
  gpgSig : Option Bool := none
  provenance : Provenance := .absent

def File.sha256 (file : File) : Option Str := file.hashes[str "sha256"]?

/-- `File::metadata`: the current key before the older spelling. -/
def File.metadata (file : File) : CoreMetadata :=
  if file.coreMetadata.isAbsent then file.distInfoMetadata else file.coreMetadata

def File.clearMetadata (file : File) : File :=
  { file with coreMetadata := .absent, distInfoMetadata := .absent }

def File.setMetadata (file : File) (metadata : CoreMetadata) : File :=
  { file with coreMetadata := metadata, distInfoMetadata := metadata }

/-- `API_VERSION`. -/
def apiVersion : Str := str "1.4"

def apiVersionBase : Str := str "1.0"

structure Meta where
  apiVersion : Str := Pypi.apiVersion
  projectStatus : Option Str := none
  projectStatusReason : Option Str := none
  deriving DecidableEq

def Meta.status (info : Meta) : ProjectStatus :=
  (info.projectStatus.bind ProjectStatus.fromMarker).getD .active

structure ProjectDetail where
  info : Meta := {}
  name : Str
  versions : List Str := []
  files : List File := []

end Peryx.Pypi
