import Peryx.Library.Cursor
import Peryx.Library.Xml
import Peryx.Pypi.Uploads
import Peryx.Storage.Journal

/-!
# The changelog (peryx-ecosystem-pypi/src/changelog.rs, serial.rs:80-175, store/journal.rs)
-/

namespace Peryx.Pypi
open Storage

def changelogPageSize : Nat := 50000

structure ChangelogEntry where
  project : Str
  version : Option Str
  timestamp : Int
  action : Str
  serial : Nat
  deriving Repr, DecidableEq

inductive ChangelogPageError where
  | tooLarge (actual : Nat)
  | atOrBeforeCursor (after : Int) (serial : Nat)
  | notIncreasing (previous serial : Nat)
  | beyondSnapshot (current serial : Nat)
  deriving Repr, DecidableEq

def cursorOf (after : Int) : Option Nat := if 0 ≤ after then some after.toNat else none

def checkEntries (after : Int) (currentSerial : Nat) :
    Option Nat → List ChangelogEntry → Except ChangelogPageError Unit
  | _, [] => .ok ()
  | previous, entry :: rest =>
    if currentSerial < entry.serial then .error (.beyondSnapshot currentSerial entry.serial)
    else if (cursorOf after).any fun cursor => entry.serial ≤ cursor then
      .error (.atOrBeforeCursor after entry.serial)
    else match previous.filter fun previous => entry.serial ≤ previous with
      | some previous => .error (.notIncreasing previous entry.serial)
      | none => checkEntries after currentSerial (some entry.serial) rest

structure ChangelogPage where
  after : Int
  currentSerial : Nat
  entries : List ChangelogEntry
  size : entries.length ≤ changelogPageSize
  checked : checkEntries after currentSerial none entries = .ok ()

def ChangelogPage.new (after : Int) (currentSerial : Nat) (entries : List ChangelogEntry) :
    Except ChangelogPageError ChangelogPage :=
  if size : entries.length ≤ changelogPageSize then
    match checked : checkEntries after currentSerial none entries with
    | .ok () => .ok ⟨after, currentSerial, entries, size, checked⟩
    | .error error => .error error
  else .error (.tooLarge entries.length)

def ChangelogPage.resumeSerial (page : ChangelogPage) : Nat :=
  match page.entries.getLast? with
  | some entry => entry.serial
  | none => (cursorOf page.after).elim page.currentSerial fun after => max after page.currentSerial

inductive ChangelogReadError where
  | store
  | invalidPage (error : ChangelogPageError)
  deriving Repr, DecidableEq

def warehouseAction (action : Str) (filename : Option Str) : Str :=
  let action :=
    if action = str "add-file" ∨ action = str "promote" then str "add file"
    else if action = str "delete-file" then str "remove file"
    else action
  filename.elim action fun filename => action ++ str " " ++ filename

section Reading
variable (readEntry : Bytes → Option JournalEntry)

def decodeEntry (record : JournalRecord) : Except ChangelogReadError JournalEntry :=
  match readEntry record.payload with
  | some entry => .ok { entry with serial := record.serial }
  | none => .error .store

def readJournalEntries (store : MetaStore) (after limit : Nat) :
    Except ChangelogReadError (Nat × List JournalEntry) := do
  let (currentSerial, records) := journalPageAfter store after limit
  let entries ← records.mapM (decodeEntry readEntry)
  return (currentSerial, entries)

def changelogEntry (entry : JournalEntry) : ChangelogEntry where
  project := entry.project
  version := entry.version
  timestamp := entry.submittedAtUnix
  action := warehouseAction entry.action entry.filename
  serial := entry.serial

def readChangelogPage (store : MetaStore) (after : Int) (limit : Nat) :
    Except ChangelogReadError ChangelogPage := do
  let (currentSerial, entries) ← readJournalEntries readEntry store ((cursorOf after).getD 0) limit
  match ChangelogPage.new after currentSerial (entries.map changelogEntry) with
  | .ok page => .ok page
  | .error error => .error (.invalidPage error)

/-- A mirror reads pages until one is empty; `none` when it stopped before. -/
def followChangelog (store : MetaStore) (limit : Nat) :
    Nat → Int → Except ChangelogReadError (Option (List ChangelogEntry))
  | 0, _ => .ok none
  | reads + 1, after => do
    let page ← readChangelogPage readEntry store after limit
    if page.entries = [] then return some []
    let rest ← followChangelog store limit reads page.resumeSerial
    return rest.map fun rest => page.entries ++ rest

end Reading

open Xml (text)

def scalars (value : Str) : List Char :=
  ((String.fromUTF8? (ByteArray.mk value.toArray)).map String.toList).getD []

def natChars (value : Nat) : List Char := Nat.toDigits 10 value

def intChars : Int → List Char
  | .ofNat value => natChars value
  | .negSucc value => '-' :: natChars (value + 1)

def escapeChar (character : Char) : List Char :=
  if character = '&' then text "&amp;"
  else if character = '<' then text "&lt;"
  else if character = '>' then text "&gt;"
  else if character = Char.ofNat 0x22 then text "&quot;"
  else if character = Char.ofNat 0x27 then text "&apos;"
  else if character.val ≤ 0x8 ∨ (0xB ≤ character.val ∧ character.val ≤ 0xC) ∨
      (0xE ≤ character.val ∧ character.val ≤ 0x1F) ∨
      (0x7F ≤ character.val ∧ character.val ≤ 0x84) ∨
      (0x86 ≤ character.val ∧ character.val ≤ 0x9F) ∨
      (0xFDD0 ≤ character.val ∧ character.val ≤ 0xFDDF) then []
  else if character.val &&& 0xFFFF = 0xFFFE ∨ character.val &&& 0xFFFF = 0xFFFF then []
  else [character]

def escapeXml (value : Str) : List Char := (scalars value).flatMap escapeChar

def stringValue (value : Str) : List Char :=
  text "<value><string>" ++ escapeXml value ++ text "</string></value>"

def optionalStringValue : Option Str → List Char
  | some value => stringValue value
  | none => text "<value><nil/></value>"

def fitsI32 (value : Int) : Bool := -2 ^ 31 ≤ value && value < 2 ^ 31

def integer (value : Nat) : List Char :=
  if fitsI32 value then text "<int>" ++ natChars value ++ text "</int>"
  else text "<i8>" ++ natChars value ++ text "</i8>"

def signedIntegerValue (value : Int) : List Char :=
  let tag := if fitsI32 value then text "int" else text "i8"
  text "<value><" ++ tag ++ text ">" ++ intChars value ++ text "</" ++ tag ++ text "></value>"

def renderEntry (entry : ChangelogEntry) : List Char :=
  text "<value><array><data>" ++ stringValue entry.project ++ optionalStringValue entry.version ++
    signedIntegerValue entry.timestamp ++ stringValue entry.action ++ text "<value>" ++
    integer entry.serial ++ text "</value></data></array></value>"

def renderChangelogResponse (entries : List ChangelogEntry) : List Char :=
  text "<?xml version=\"1.0\"?><methodResponse><params><param><value><array><data>" ++
    entries.flatMap renderEntry ++
    text "</data></array></value></param></params></methodResponse>"

end Peryx.Pypi

/-!
## Changelog answers are well-formed

Of a text only characters that XML allows are written, the marked ones as references, so the
answer is a document whatever strings its entries carry.
-/

namespace Peryx.Pypi
open Xml

theorem isChar_of_kept (character : Char)
    (hcontrol : ¬ (character.val ≤ 0x8 ∨ (0xB ≤ character.val ∧ character.val ≤ 0xC) ∨
      (0xE ≤ character.val ∧ character.val ≤ 0x1F)))
    (hlast : ¬ (character.val &&& 0xFFFF = 0xFFFE ∨ character.val &&& 0xFFFF = 0xFFFF)) :
    IsChar character := by
  have hvalid : character.val.toNat < 0xD800 ∨
      (0xDFFF < character.val.toNat ∧ character.val.toNat < 0x110000) := character.valid
  have hpenultimate : character.val.toNat ≠ 0xFFFE := by
    intro heq
    have hval : character.val = 0xFFFE := UInt32.toNat_inj.mp heq
    exact hlast (.inl (by rw [hval]; rfl))
  have hultimate : character.val.toNat ≠ 0xFFFF := by
    intro heq
    have hval : character.val = 0xFFFF := UInt32.toNat_inj.mp heq
    exact hlast (.inr (by rw [hval]; rfl))
  unfold IsChar
  simp only [UInt32.le_iff_toNat_le, ← UInt32.toNat_inj, UInt32.reduceToNat] at hcontrol ⊢
  omega
theorem escapeChar_escaped (character : Char) : Escaped character (escapeChar character) := by
  unfold escapeChar
  split
  · exact .reference (text "amp") (by decide)
  split
  · exact .reference (text "lt") (by decide)
  split
  · exact .reference (text "gt") (by decide)
  split
  · exact .reference (text "quot") (by decide)
  split
  · exact .reference (text "apos") (by decide)
  split
  · exact .dropped
  rename_i hcontrol
  split
  · exact .dropped
  rename_i hlast
  refine .plain ⟨isChar_of_kept character (fun h => hcontrol ?_) hlast, ?_, ?_, ?_⟩
  · rcases h with h | h | h
    · exact .inl h
    · exact .inr (.inl h)
    · exact .inr (.inr (.inl h))
  all_goals assumption

theorem content_escapeXml (value : Str) : Content (escapeXml value) :=
  content_escaped escapeChar escapeChar_escaped (scalars value) [] nofun

theorem element_of_eq (name : List Char) {whole content : List Char} (hname : IsName name = true)
    (hcontent : Content content) (heq : whole = openTag name ++ content ++ closeTag name) :
    Element whole := by
  rw [heq]
  exact .node name content hname hcontent

theorem stringValue_element (value : Str) : Element (stringValue value) := by
  have hstring : Element (openTag (text "string") ++ escapeXml value ++ closeTag (text "string")) :=
    .node (text "string") _ (by decide) (content_escapeXml value)
  refine element_of_eq (text "value") (by decide) (content_element hstring) ?_
  simp only [stringValue, List.append_assoc]
  rfl

theorem optionalStringValue_element (value : Option Str) : Element (optionalStringValue value) := by
  cases value with
  | some value => exact stringValue_element value
  | none =>
    have hnil : Element (emptyTag (text "nil")) := .empty (text "nil") (by decide)
    exact element_of_eq (text "value") (by decide) (content_element hnil) rfl

theorem plain_digit (character : Char) (h : character.isDigit = true) : Plain character := by
  have hrange : 0x30 ≤ character.val ∧ character.val ≤ 0x39 := by
    simpa [Char.isDigit] using h
  have hne : ∀ other : Char, other.val.toNat < 0x30 ∨ 0x39 < other.val.toNat → character ≠ other := by
    rintro other hother rfl
    simp only [UInt32.le_iff_toNat_le, UInt32.reduceToNat] at hrange
    omega
  refine ⟨?_, hne _ (by decide), hne _ (by decide), hne _ (by decide)⟩
  unfold IsChar
  simp only [UInt32.le_iff_toNat_le, ← UInt32.toNat_inj, UInt32.reduceToNat] at hrange ⊢
  omega

theorem natChars_plain (value : Nat) : ∀ character ∈ natChars value, Plain character :=
  fun character hmem =>
    plain_digit character (Nat.isDigit_of_mem_toDigits (by decide) (by decide) hmem)

theorem intChars_plain (value : Int) : ∀ character ∈ intChars value, Plain character := by
  cases value with
  | ofNat value => exact natChars_plain value
  | negSucc value =>
    intro character hmem
    rcases List.mem_cons.mp hmem with rfl | hmem
    · refine ⟨by decide, by decide, by decide, by decide⟩
    · exact natChars_plain _ character hmem

theorem integer_element (value : Nat) : Element (integer value) := by
  have hcontent := Content.data _ (charData_plain _ (natChars_plain value))
  unfold integer
  split
  · exact element_of_eq (text "int") (by decide) hcontent rfl
  · exact element_of_eq (text "i8") (by decide) hcontent rfl

theorem signedIntegerValue_element (value : Int) : Element (signedIntegerValue value) := by
  have hcontent : Content (intChars value) := .data _ (charData_plain _ (intChars_plain value))
  have htagged : ∀ tag : List Char, IsName tag = true →
      Element (text "<value><" ++ tag ++ text ">" ++ intChars value ++ text "</" ++ tag ++
        text "></value>") := by
    intro tag htag
    refine element_of_eq (text "value") (by decide) (content_element (.node tag _ htag hcontent)) ?_
    simp only [openTag, closeTag, List.append_assoc, List.cons_append]
    rfl
  unfold signedIntegerValue
  dsimp only
  split
  · exact htagged (text "int") (by decide)
  · exact htagged (text "i8") (by decide)

theorem rowOpen : text "<value><array><data>" =
    openTag (text "value") ++ (openTag (text "array") ++ openTag (text "data")) := by decide

theorem rowClose : text "</value></data></array></value>" = closeTag (text "value") ++
    (closeTag (text "data") ++ (closeTag (text "array") ++ closeTag (text "value"))) := by decide

theorem valueOpen : text "<value>" = openTag (text "value") := by decide

theorem responseOpen :
    text "<?xml version=\"1.0\"?><methodResponse><params><param><value><array><data>" =
      text "<?xml version=\"1.0\"?>" ++ (openTag (text "methodResponse") ++ (openTag (text "params") ++
        (openTag (text "param") ++ (openTag (text "value") ++ (openTag (text "array") ++
          openTag (text "data")))))) := by decide

theorem responseClose : text "</data></array></value></param></params></methodResponse>" =
    closeTag (text "data") ++ (closeTag (text "array") ++ (closeTag (text "value") ++
      (closeTag (text "param") ++ (closeTag (text "params") ++
        closeTag (text "methodResponse"))))) := by decide

theorem renderEntry_element (entry : ChangelogEntry) : Element (renderEntry entry) := by
  have hserial : Element (openTag (text "value") ++ integer entry.serial ++
      closeTag (text "value")) :=
    .node (text "value") _ (by decide) (content_element (integer_element entry.serial))
  have hrow : Content (stringValue entry.project ++ (optionalStringValue entry.version ++
      (signedIntegerValue entry.timestamp ++ (stringValue entry.action ++
        (openTag (text "value") ++ integer entry.serial ++ closeTag (text "value")))))) :=
    content_cons (stringValue_element _) (content_cons (optionalStringValue_element _)
      (content_cons (signedIntegerValue_element _) (content_cons (stringValue_element _)
        (content_element hserial))))
  have hdata := Element.node (text "data") _ (by decide) hrow
  have harray := Element.node (text "array") _ (by decide) (content_element hdata)
  refine element_of_eq (text "value") (by decide) (content_element harray) ?_
  simp only [renderEntry, rowOpen, valueOpen, rowClose, List.append_assoc]

theorem render_document (entries : List ChangelogEntry) : Document (renderChangelogResponse entries) := by
  have hrows : Content (entries.map renderEntry).flatten := by
    refine content_elements _ fun element helement => ?_
    obtain ⟨entry, -, rfl⟩ := List.mem_map.mp helement
    exact renderEntry_element entry
  have hdata := Element.node (text "data") _ (by decide) hrows
  have harray := Element.node (text "array") _ (by decide) (content_element hdata)
  have hvalue := Element.node (text "value") _ (by decide) (content_element harray)
  have hparam := Element.node (text "param") _ (by decide) (content_element hvalue)
  have hparams := Element.node (text "params") _ (by decide) (content_element hparam)
  have hresponse := Element.node (text "methodResponse") _ (by decide) (content_element hparams)
  have hdocument := Document.mk _ hresponse
  simp only [List.append_assoc] at hdocument
  simp only [renderChangelogResponse, responseOpen, responseClose, List.flatMap_def,
    List.append_assoc]
  exact hdocument
end Peryx.Pypi
