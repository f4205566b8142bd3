import Peryx.Core.Percent
import Peryx.Index.RouteResolver
import Peryx.Pypi.Download
import Peryx.Storage.BlobFiles

/-! # File URLs (peryx-core/src/path.rs, peryx-ecosystem-pypi/src/serving) -/

namespace Peryx.Pypi
open Peryx.Core Peryx.Storage Peryx.Str

theorem isHexByte_ne_slash (byte : UInt8) (h : isHexByte byte = true) : byte ≠ 0x2F := by
  intro heq
  rw [heq] at h
  exact absurd h (by decide)

theorem digest_slash (digest : Digest) : 0x2F ∉ digest.hex := fun hmem =>
  isHexByte_ne_slash 0x2F (digest.isHex 0x2F hmem) rfl

def fileTail (sha256 filename : Str) : Str := sha256 ++ 0x2F :: encodeComponent filename

theorem safeFilename_encodeComponent (filename : Str) (hutf8 : IsUtf8 filename)
    (hvalid : validateFilename filename = .ok ()) :
    safeFilename (encodeComponent filename) = .ok filename := by
  unfold safeFilename decodePathSegment
  rw [decodePercent_encodeComponent filename hutf8]
  change (validateFilename filename >>= fun _ => pure filename) = _
  rw [hvalid]
  rfl

theorem downloadTarget_fileTail (digest : Digest) (filename : Str) (hutf8 : IsUtf8 filename)
    (hvalid : validateFilename filename = .ok ()) :
    downloadTarget (fileTail digest.hex filename) = some (.ok (digest.hex, filename)) := by
  have hdigest : parseDigest digest.hex = .ok digest.hex := by
    unfold parseDigest
    rw [digest.valid]
  unfold downloadTarget fileTail
  rw [splitOnce_append 0x2F digest.hex _ (digest_slash digest), Option.map_some]
  dsimp only
  rw [hdigest, safeFilename_encodeComponent filename hutf8 hvalid]
  rfl

theorem trimStart_localFileUrl (route sha256 filename : Str) (h : validateRoute route = .ok ()) :
    trimStart 0x2F (localFileUrl route sha256 filename) =
      route ++ 0x2F :: (str "files/" ++ fileTail sha256 filename) := by
  have hwhole : localFileUrl route sha256 filename =
      0x2F :: (route ++ 0x2F :: (str "files/" ++ fileTail sha256 filename)) := by
    have hslash : str "/" = [0x2F] := by decide
    have hfiles : str "/files/" = 0x2F :: str "files/" := by decide
    unfold localFileUrl fileTail
    rw [encodePath_route route h, hslash, hfiles]
    simp only [List.append_assoc, List.cons_append, List.nil_append]
  have hfirst : ∃ first rest, route = first :: rest ∧ first ≠ 0x2F := by
    cases hroute : route with
    | nil => exact absurd hroute (validateRoute_ok route h).1
    | cons first rest =>
      refine ⟨first, rest, rfl, fun heq => ?_⟩
      have hshape : startsWith route (str "/") = true := by
        rw [hroute, heq]
        rfl
      unfold validateRoute at h
      simp [hshape] at h
  obtain ⟨first, rest, hroute, hne⟩ := hfirst
  rw [hwhole, hroute]
  unfold trimStart
  rw [List.dropWhile_cons_of_pos (by decide), List.cons_append,
    List.dropWhile_cons_of_neg (by simpa using hne)]

section Served
variable (indexes : Indexes)

/-- The search for the longest route finds an index whose route the path has and which no
longer route of the path belongs to. -/
theorem resolveRoute_iff (index : Index) (hmem : index ∈ indexes.toList) (path rest : Str)
    (hrouted : RoutedBy index.route path rest) :
    resolveRoute indexes.toList path = some (index, rest) ↔
      ∀ other ∈ indexes.toList, ∀ left, RoutedBy other.route path left →
        other.route.length ≤ index.route.length := by
  rw [resolveRoute_resolver]
  cases hresolve : (RouteResolver.new indexes.toList).resolve path with
  | none => exact absurd hrouted (resolve_none_spec indexes path hresolve index hmem rest)
  | some found =>
    obtain ⟨position, left⟩ := found
    obtain ⟨found, hfound, hleft, hlongest⟩ := resolve_some_spec indexes path left position hresolve
    rw [Option.bind_some]
    dsimp only
    rw [hfound, Option.map_some, Option.some.injEq, Prod.mk.injEq]
    constructor
    · intro heq
      rw [← heq.1]
      exact hlongest
    · intro hall
      have hfoundMem := List.mem_of_getElem? hfound
      have hle := hall found hfoundMem left hleft
      have hge := hlongest index hmem rest hrouted
      obtain ⟨hroute, hrest⟩ := hleft.unique hrouted (by omega)
      exact ⟨List.inj_on_of_nodup_map indexes.routes_nodup hfoundMem hmem hroute, hrest⟩

/-- A page's file URL leads back to its digest and filename below its own index's route,
and to no other index unless that one's route claims the path; decoding inverts encoding;
and a segment the checks accept holds no separator once it is decoded. -/
theorem file_url_read_back :
    (∀ index ∈ indexes.toList, ∀ (digest : Digest) (filename : Str), IsUtf8 filename →
      validateFilename filename = .ok () →
        let path := trimStart 0x2F (localFileUrl index.route digest.hex filename)
        ∃ file, RoutedBy index.route path (str "files/" ++ file) ∧
          stripPrefix (str "files/" ++ file) (str "files/") = some file ∧
          downloadTarget file = some (.ok (digest.hex, filename)) ∧
          (resolveRoute indexes.toList path = some (index, str "files/" ++ file) ↔
            ∀ other ∈ indexes.toList, ∀ left, RoutedBy other.route path left →
              other.route.length ≤ index.route.length)) ∧
      (∀ text, IsUtf8 text → decodePercent (encodeComponent text) = .ok text) ∧
      ∀ raw decoded kind, decodePathSegment raw = .ok decoded →
        validatePathSegment kind decoded = .ok () → Confined decoded := by
  refine ⟨fun index hmem digest filename hutf8 hvalid => ?_, decodePercent_encodeComponent,
    fun raw decoded kind _ hsafe => ?_⟩
  · have hpath := trimStart_localFileUrl index.route digest.hex filename
      (indexes.routes_valid index hmem)
    have hrouted : RoutedBy index.route
        (trimStart 0x2F (localFileUrl index.route digest.hex filename))
        (str "files/" ++ fileTail digest.hex filename) := Or.inr hpath
    exact ⟨fileTail digest.hex filename, hrouted, (stripPrefix_eq_some _ _ _).mpr rfl,
      downloadTarget_fileTail digest filename hutf8 hvalid,
      resolveRoute_iff indexes index hmem _ _ hrouted⟩
  · exact isSafeSegment_confined decoded ((validatePathSegment_iff kind decoded).mp hsafe)

end Served

def pageIndexes : Indexes where
  toList := [⟨str "pypi", str "root/pypi", .pypi, .hosted false, {}, ⟨true, []⟩⟩]
  names_nodup := by decide
  routes_nodup := by decide
  routes_valid := by
    intro index h
    rw [List.mem_singleton.mp h]
    rfl

def pageDigest : Digest := ⟨List.replicate 64 0x61, by decide⟩

/-- A filename with a space, an escape's percent sign and a character outside ASCII. -/
def spacedFilename : Str := str "é 100%.whl"

theorem spaced_file_url_read_back :
    downloadTarget (pageDigest.hex ++ str "/%C3%A9%20100%25.whl") =
        some (.ok (pageDigest.hex, spacedFilename)) ∧
      decodePercent (encodeComponent spacedFilename) = .ok spacedFilename ∧
      Confined (str "..%") := by
  have htext : IsUtf8 spacedFilename := isUtf8_str _
  have hback := file_url_read_back pageIndexes
  obtain ⟨file, hrouted, _, htarget, _⟩ := hback.1 _ List.mem_cons_self pageDigest spacedFilename
    htext (by decide)
  have hpath : trimStart 0x2F (localFileUrl (str "root/pypi") pageDigest.hex spacedFilename) =
      str "root/pypi" ++ 0x2F :: (str "files/" ++ (pageDigest.hex ++ str "/%C3%A9%20100%25.whl")) := by
    decide
  have hfile : file = pageDigest.hex ++ str "/%C3%A9%20100%25.whl" := by
    have hrest := (hrouted.unique (Or.inr hpath) rfl).2
    exact List.append_cancel_left hrest
  rw [hfile] at htarget
  exact ⟨htarget, hback.2.1 spacedFilename htext,
    hback.2.2 (str "..%25") (str "..%") (str "segment") (by decide) (by decide)⟩

end Peryx.Pypi
