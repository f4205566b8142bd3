import Peryx.Core.Query
import Peryx.Library.Cursor
import Peryx.Oci.RoutePaths

/-! # Pages of names (peryx-ecosystem-oci/src/registry/discovery.rs:232-303) -/

namespace Peryx.Oci
open Query

def byteOrder (text : Str) : List Nat := text.map UInt8.toNat

/-- A `BTreeSet<String>`. -/
structure NameSet where
  names : List Str
  sorted : names.Pairwise fun a b => byteOrder a < byteOrder b

/-- The names after one, as `item > last` takes them. -/
def NameSet.after (items : NameSet) (last : Str) : List Str :=
  Cursor.after byteOrder (byteOrder last) items.names

def pageLast (query : Str) : Str := (queryParam query (str "last")).getD []

def pageLimit (query : Str) : Option Nat := (queryParam query (str "n")).bind Str.parseU64

def paginate (items : NameSet) (query : Str) : List Str × Option (Nat × Str) :=
  let page := items.after (pageLast query)
  match pageLimit query with
  | some 0 => ([], none)
  | some n =>
    if n < page.length then (page.take n, some (n, (page.take n).getLast?.getD []))
    else (page, none)
  | none => (page, none)

structure Listing where
  items : List Str
  link : Option Str
  deriving Repr, DecidableEq

def headerValid (value : Str) : Bool :=
  value.all fun byte => (0x20 ≤ byte && byte != 0x7F) || byte == 0x09

def linkHeader (path : Str) (n : Nat) (marker : Str) : Str :=
  str "<" ++ path ++ str "?n=" ++ Str.decimal n ++ str "&last=" ++ marker ++ str ">; rel=\"next\""

def listResponse (path : Str) (items : NameSet) (query : Str) : Option Listing :=
  match paginate items query with
  | (page, some (n, marker)) =>
    if headerValid (linkHeader path n marker) then some ⟨page, some (linkHeader path n marker)⟩
    else none
  | (page, none) => some ⟨page, none⟩

def tagListPath (name : Str) : Str := str "/v2/" ++ name ++ str "/tags/list"

def tagListResponse (name : Str) (tags : NameSet) (query : Str) : Option Listing :=
  listResponse (tagListPath name) tags query

def catalogResponse (repositories : NameSet) (query : Str) : Option Listing :=
  listResponse (str "/v2/_catalog") repositories query

/-- The query a client asks for: the target between the angle brackets, without its
fragment, from the question mark on. -/
def linkQuery (link : Str) : Option Str := do
  let (_, rest) ← Str.splitOnce 0x3C link
  let (target, _) ← Str.splitOnce 0x3E rest
  let (_, query) ← Str.splitOnce 0x3F (target.takeWhile (· ≠ 0x23))
  return escapeQuery query

/-- Following the links from a query on, no answer panics, the last page has no link and
the pages put together are these names. -/
inductive Follows (respond : Str → Option Listing) : Str → List Str → Prop
  | last (query : Str) (listing : Listing) (h : respond query = some listing)
      (hlink : listing.link = none) : Follows respond query listing.items
  | next (query : Str) (listing : Listing) (link following : Str) (rest : List Str)
      (h : respond query = some listing) (hlink : listing.link = some link)
      (hquery : linkQuery link = some following) (hrest : Follows respond following rest) :
      Follows respond query (listing.items ++ rest)

def firstQuery (n : Nat) : Str := str "n=" ++ Str.decimal n

def carriedQuery (n : Nat) (marker : Str) : Str :=
  escapeQuery (str "n=" ++ Str.decimal n ++ str "&last=" ++
    (marker.takeWhile (· ≠ 0x3E)).takeWhile (· ≠ 0x23))

def Carried (items : NameSet) (n : Nat) (marker : Str) : Prop :=
  headerValid marker = true ∧
    items.after (pageLast (carriedQuery n marker)) = items.after marker

/-- Where a page ends before the names left do, its last name is carried. A marker that
holds a pair of its own may change the page size. -/
inductive Resumes (items : NameSet) : Option Nat → List Str → Prop
  | whole (left : List Str) : Resumes items none left
  | fits (n : Nat) (left : List Str) (h : left.length ≤ n) : Resumes items (some n) left
  | breaks (n : Nat) (left : List Str) (marker : Str) (hn : n ≠ 0) (h : n < left.length)
      (hmarker : (left.take n).getLast? = some marker) (hcarried : Carried items n marker)
      (hrest : Resumes items (pageLimit (carriedQuery n marker)) (left.drop n)) :
      Resumes items (some n) left

theorem paginate_cases (items : NameSet) (query : Str) :
    (∃ n, pageLimit query = some n ∧ n ≠ 0 ∧ n < (items.after (pageLast query)).length ∧
      ∃ marker, ((items.after (pageLast query)).take n).getLast? = some marker ∧
        paginate items query = ((items.after (pageLast query)).take n, some (n, marker))) ∨
    (pageLimit query = some 0 ∧ paginate items query = ([], none)) ∨
    ((pageLimit query = none ∨ ∃ n, pageLimit query = some n ∧
        (items.after (pageLast query)).length ≤ n) ∧
      paginate items query = (items.after (pageLast query), none)) := by
  unfold paginate
  split
  · rename_i hzero
    exact .inr (.inl ⟨hzero, rfl⟩)
  · rename_i n hpositive hlimit
    have hn : n ≠ 0 := hpositive
    dsimp only
    split
    · rename_i hlength
      have hne : (items.after (pageLast query)).take n ≠ [] := by
        rw [Ne, List.take_eq_nil_iff, not_or]
        refine ⟨hn, fun hnil => ?_⟩
        rw [hnil] at hlength
        exact absurd hlength (Nat.not_lt_zero n)
      refine .inl ⟨n, hlimit, hn, hlength, _, List.getLast?_eq_some_getLast hne, ?_⟩
      rw [List.getLast?_eq_some_getLast hne]
      rfl
    · rename_i hlength
      exact .inr (.inr ⟨.inr ⟨n, hlimit, Nat.le_of_not_lt hlength⟩, rfl⟩)
  · rename_i hlimit
    exact .inr (.inr ⟨.inl hlimit, rfl⟩)

theorem after_marker (items : NameSet) (cursor : Str) (n : Nat) (marker : Str)
    (h : ((items.after cursor).take n).getLast? = some marker) :
    items.after marker = (items.after cursor).drop n :=
  Cursor.after_last byteOrder (byteOrder cursor) items.names n marker items.sorted h

theorem after_eq_of_first (items : NameSet) (cursor other first : Str)
    (h : (items.after cursor).head? = some first) (h' : (items.after other).head? = some first) :
    items.after cursor = items.after other := by
  have hfrom : ∀ c : Str, (items.after c).head? = some first → ∀ name ∈ items.names,
      byteOrder c < byteOrder name ↔ byteOrder first ≤ byteOrder name := by
    intro c hc name hname
    have hmem := List.mem_of_head? hc
    have hfirst := (Cursor.mem_after byteOrder (byteOrder c) items.names first).mp hmem
    have hsorted := Cursor.sorted_after byteOrder (byteOrder c) items.names items.sorted
    constructor
    · intro hlt
      have hin : name ∈ items.after c := (Cursor.mem_after _ _ _ _).mpr ⟨hname, hlt⟩
      obtain ⟨rest, hrest⟩ := List.head?_eq_some_iff.mp hc
      have hcut : Cursor.after byteOrder (byteOrder c) items.names = first :: rest := hrest
      rw [hrest] at hin
      rw [hcut, List.pairwise_cons] at hsorted
      rcases List.mem_cons.mp hin with heq | hin
      · rw [heq]
      · exact le_of_lt (hsorted.1 name hin)
    · exact fun hle => lt_of_lt_of_le hfirst.2 hle
  refine Cursor.after_congr byteOrder (byteOrder cursor) (byteOrder other) items.names ?_
  intro name hname
  exact (hfrom cursor h name hname).trans (hfrom other h' name hname).symm

def PlainPath (path : Str) : Prop :=
  headerValid path = true ∧ ∀ byte ∈ path, byte ≠ 0x3C ∧ byte ≠ 0x3E ∧ byte ≠ 0x23 ∧ byte ≠ 0x3F

theorem decimal_plain (n : Nat) : PlainPath (Str.decimal n) := by
  have hdigits := (Str.decimal_digits n).2
  have hother : ∀ byte ∈ Str.decimal n, ∀ other : UInt8, ¬ other ≤ 0x39 → byte ≠ other :=
    fun byte hbyte other hnot heq => hnot (heq ▸ (hdigits byte hbyte).2)
  refine ⟨List.all_eq_true.mpr fun byte hbyte => ?_, fun byte hbyte => ?_⟩
  · have hlow : (0x20 : UInt8) ≤ byte := UInt8.le_trans (by decide) (hdigits byte hbyte).1
    have hdelete := hother byte hbyte 0x7F (by decide)
    simp [hlow, hdelete]
  · refine ⟨hother byte hbyte _ (by decide), hother byte hbyte _ (by decide), ?_,
      hother byte hbyte _ (by decide)⟩
    intro heq
    exact absurd (heq ▸ (hdigits byte hbyte).1) (by decide)

theorem headerValid_linkHeader (path : Str) (n : Nat) (marker : Str) (hpath : PlainPath path) :
    headerValid (linkHeader path n marker) = headerValid marker := by
  have happend : ∀ a b : Str, headerValid (a ++ b) = (headerValid a && headerValid b) := by
    intro a b
    exact List.all_append
  have hopen : headerValid (str "<") = true := by decide
  have hsize : headerValid (str "?n=") = true := by decide
  have hlast : headerValid (str "&last=") = true := by decide
  have hclose : headerValid (str ">; rel=\"next\"") = true := by decide
  unfold linkHeader
  simp only [happend, hopen, hsize, hlast, hclose, hpath.1, (decimal_plain n).1, Bool.true_and,
    Bool.and_true]

theorem splitOnce_takeWhile (separator : UInt8) (subject : Str) (h : separator ∈ subject) :
    ∃ rest, Str.splitOnce separator subject =
      some (subject.takeWhile (· ≠ separator), rest) := by
  induction subject with
  | nil => cases h
  | cons byte subject ih =>
    by_cases hbyte : byte = separator
    · exact ⟨subject, by simp [Str.splitOnce, hbyte]⟩
    · obtain ⟨rest, hrest⟩ := ih ((List.mem_cons.mp h).resolve_left (Ne.symm hbyte))
      refine ⟨rest, ?_⟩
      rw [Str.splitOnce, if_neg hbyte, hrest, List.takeWhile_cons_of_pos (by simpa using hbyte)]
      rfl

theorem takeWhile_ended (separator : UInt8) (front rest : Str) :
    (front ++ separator :: rest).takeWhile (· ≠ separator) = front.takeWhile (· ≠ separator) := by
  induction front with
  | nil => simp
  | cons byte front ih =>
    by_cases hbyte : byte = separator
    · simp [hbyte]
    · rw [List.cons_append, List.takeWhile_cons_of_pos (by simpa using hbyte), ih,
        List.takeWhile_cons_of_pos (by simpa using hbyte)]

theorem linkQuery_linkHeader (path : Str) (n : Nat) (marker : Str) (hpath : PlainPath path) :
    linkQuery (linkHeader path n marker) = some (carriedQuery n marker) := by
  let size := str "n=" ++ Str.decimal n ++ str "&last="
  let front := path ++ 0x3F :: size
  have hlink : linkHeader path n marker =
      0x3C :: (front ++ marker ++ 0x3E :: str "; rel=\"next\"") := by
    simp only [linkHeader, front, size, List.append_assoc, List.cons_append]
    rfl
  have hsize : ∀ byte ∈ size, byte ≠ 0x3E ∧ byte ≠ 0x23 := by
    have hname : ∀ byte ∈ str "n=", byte ≠ 0x3E ∧ byte ≠ 0x23 :=
      Str.forall_of_all (by decide)
    have hlast : ∀ byte ∈ str "&last=", byte ≠ 0x3E ∧ byte ≠ 0x23 :=
      Str.forall_of_all (by decide)
    intro byte hbyte
    rcases List.mem_append.mp hbyte with hbyte | hbyte
    · rcases List.mem_append.mp hbyte with hbyte | hbyte
      · exact hname byte hbyte
      · have hplain := (decimal_plain n).2 byte hbyte
        exact ⟨hplain.2.1, hplain.2.2.1⟩
    · exact hlast byte hbyte
  have hfront : ∀ byte ∈ front, byte ≠ 0x3E ∧ byte ≠ 0x23 := by
    intro byte hbyte
    rcases List.mem_append.mp hbyte with hbyte | hbyte
    · exact ⟨(hpath.2 byte hbyte).2.1, (hpath.2 byte hbyte).2.2.1⟩
    · rcases List.mem_cons.mp hbyte with heq | hbyte
      · rw [heq]
        decide
      · exact hsize byte hbyte
  obtain ⟨rest, hcut⟩ := splitOnce_takeWhile 0x3E (front ++ marker ++ 0x3E :: str "; rel=\"next\"")
    (List.mem_append_right _ List.mem_cons_self)
  have htarget : (front ++ marker ++ 0x3E :: str "; rel=\"next\"").takeWhile (· ≠ 0x3E) =
      front ++ marker.takeWhile (· ≠ 0x3E) := by
    rw [takeWhile_ended, List.takeWhile_append_of_pos]
    exact fun byte hbyte => decide_eq_true (hfront byte hbyte).1
  have hfragment : (front ++ marker.takeWhile (· ≠ 0x3E)).takeWhile (· ≠ 0x23) =
      path ++ 0x3F :: (size ++ (marker.takeWhile (· ≠ 0x3E)).takeWhile (· ≠ 0x23)) := by
    rw [List.takeWhile_append_of_pos fun byte hbyte => decide_eq_true (hfront byte hbyte).2,
      List.append_assoc, List.cons_append]
  have hquestion : 0x3F ∉ path := fun hmem => (hpath.2 _ hmem).2.2.2 rfl
  unfold linkQuery carriedQuery
  rw [hlink, Str.splitOnce, if_pos rfl]
  show ((Str.splitOnce 0x3E (front ++ marker ++ 0x3E :: str "; rel=\"next\"")).bind fun part =>
    (Str.splitOnce 0x3F (part.1.takeWhile (· ≠ 0x23))).bind fun part =>
      some (escapeQuery part.2)) = _
  rw [hcut, Option.bind_some, htarget, hfragment, Str.splitOnce_append 0x3F path _ hquestion]
  rfl

section Walk
variable (path : Str) (hpath : PlainPath path) (items : NameSet)
include hpath

theorem listResponse_cases (query : Str) (listing : Listing)
    (h : listResponse path items query = some listing) :
    (∃ n marker, pageLimit query = some n ∧ n ≠ 0 ∧
      n < (items.after (pageLast query)).length ∧
      ((items.after (pageLast query)).take n).getLast? = some marker ∧
      headerValid marker = true ∧ listing =
        ⟨(items.after (pageLast query)).take n, some (linkHeader path n marker)⟩) ∨
    (pageLimit query = some 0 ∧ listing = ⟨[], none⟩) ∨
    ((pageLimit query = none ∨ ∃ n, pageLimit query = some n ∧
        (items.after (pageLast query)).length ≤ n) ∧
      listing = ⟨items.after (pageLast query), none⟩) := by
  unfold listResponse at h
  rcases paginate_cases items query with ⟨n, hlimit, hn, hlength, marker, hmarker, hpage⟩ |
    ⟨hlimit, hpage⟩ | ⟨hlimit, hpage⟩
  · rw [hpage] at h
    dsimp only at h
    rw [headerValid_linkHeader path n marker hpath] at h
    split at h
    · rename_i hvalid
      cases h
      exact .inl ⟨n, marker, hlimit, hn, hlength, hmarker, hvalid, rfl⟩
    · cases h
  · rw [hpage] at h
    cases h
    exact .inr (.inl ⟨hlimit, rfl⟩)
  · rw [hpage] at h
    cases h
    exact .inr (.inr ⟨hlimit, rfl⟩)

theorem follows_first (query : Str) (listed : List Str)
    (h : Follows (listResponse path items) query listed) (hne : listed ≠ []) :
    listed.head? = (items.after (pageLast query)).head? := by
  cases h with
  | last query listing h hlink =>
    rcases listResponse_cases path hpath items query listing h with
      ⟨n, marker, _, _, _, _, _, rfl⟩ | ⟨_, rfl⟩ | ⟨_, rfl⟩
    · cases hlink
    · exact absurd rfl hne
    · rfl
  | next query listing link following rest h hlink hquery hrest =>
    rcases listResponse_cases path hpath items query listing h with
      ⟨n, marker, _, hn, hlength, _, _, rfl⟩ | ⟨_, rfl⟩ | ⟨_, rfl⟩
    · cases hnames : items.after (pageLast query) with
      | nil =>
        rw [hnames] at hlength
        exact absurd hlength (Nat.not_lt_zero n)
      | cons name names =>
        obtain ⟨m, rfl⟩ := Nat.exists_eq_succ_of_ne_zero hn
        rfl
    · cases hlink
    · cases hlink

theorem resumes_of_follows (query : Str) (listed : List Str)
    (h : Follows (listResponse path items) query listed)
    (hlisted : listed = items.after (pageLast query)) :
    Resumes items (pageLimit query) listed := by
  induction h with
  | last query listing h hlink =>
    rcases listResponse_cases path hpath items query listing h with
      ⟨n, marker, _, _, _, _, _, rfl⟩ | ⟨hlimit, rfl⟩ | ⟨hlimit, rfl⟩
    · cases hlink
    · rw [hlimit]
      exact Resumes.fits 0 [] le_rfl
    · rcases hlimit with hlimit | ⟨n, hlimit, hlength⟩
      · rw [hlimit]
        exact Resumes.whole _
      · rw [hlimit]
        exact Resumes.fits n _ hlength
  | next query listing link following rest h hlink hquery hrest ih =>
    rcases listResponse_cases path hpath items query listing h with
      ⟨n, marker, hlimit, hn, hlength, hmarker, hvalid, rfl⟩ | ⟨_, rfl⟩ | ⟨_, rfl⟩
    · cases hlink
      rw [linkQuery_linkHeader path n marker hpath] at hquery
      cases hquery
      have hdrop : rest = (items.after (pageLast query)).drop n := by
        have hsplit := hlisted.trans (List.take_append_drop n _).symm
        exact List.append_cancel_left hsplit
      have hafter := after_marker items (pageLast query) n marker hmarker
      have hne : rest ≠ [] := by
        rw [hdrop, Ne, List.drop_eq_nil_iff]
        omega
      have hfirst := follows_first path hpath items _ rest hrest hne
      have hhead : rest.head? = some (rest.head hne) := List.head?_eq_some_head hne
      have hsame : items.after (pageLast (carriedQuery n marker)) = items.after marker := by
        refine after_eq_of_first items _ _ (rest.head hne) (hfirst.symm.trans hhead) ?_
        rw [hafter, ← hdrop]
        exact hhead
      have hrest := ih (by rw [hsame, hafter, hdrop])
      rw [hlimit, hlisted]
      rw [hdrop] at hrest
      exact Resumes.breaks n _ marker hn hlength hmarker ⟨hvalid, hsame⟩ hrest
    · cases hlink
    · cases hlink

theorem follows_of_resumes (limit : Option Nat) (left : List Str) (h : Resumes items limit left)
    (query : Str) (hlimit : pageLimit query = limit) (hleft : items.after (pageLast query) = left) :
    Follows (listResponse path items) query left := by
  induction h generalizing query with
  | whole left =>
    have hpage : paginate items query = (left, none) := by
      unfold paginate
      rw [hlimit, hleft]
    have hanswer : listResponse path items query = some ⟨left, none⟩ := by
      unfold listResponse
      rw [hpage]
    exact Follows.last query ⟨left, none⟩ hanswer rfl
  | fits n left h =>
    have hpage : paginate items query = (left, none) := by
      unfold paginate
      rw [hlimit, hleft]
      cases n with
      | zero =>
        rw [List.length_eq_zero_iff.mp (Nat.le_zero.mp h)]
        rfl
      | succ n => exact if_neg (Nat.not_lt.mpr h)
    have hanswer : listResponse path items query = some ⟨left, none⟩ := by
      unfold listResponse
      rw [hpage]
    exact Follows.last query ⟨left, none⟩ hanswer rfl
  | breaks n left marker hn h hmarker hcarried hrest ih =>
    have hpage : paginate items query = (left.take n, some (n, marker)) := by
      unfold paginate
      rw [hlimit, hleft]
      cases n with
      | zero => exact absurd rfl hn
      | succ n =>
        show (if n + 1 < left.length then
          (left.take (n + 1), some (n + 1, (left.take (n + 1)).getLast?.getD [])) else (left, none)) = _
        rw [if_pos h, hmarker]
        rfl
    have hanswer : listResponse path items query =
        some ⟨left.take n, some (linkHeader path n marker)⟩ := by
      unfold listResponse
      rw [hpage]
      dsimp only
      rw [headerValid_linkHeader path n marker hpath, if_pos hcarried.1]
    have hafter : items.after marker = left.drop n := by
      rw [← hleft] at hmarker ⊢
      exact after_marker items (pageLast query) n marker hmarker
    have hfollows := ih (carriedQuery n marker) rfl (hcarried.2.trans hafter)
    have hwhole := Follows.next query ⟨left.take n, some (linkHeader path n marker)⟩ _ _ _ hanswer
      rfl (linkQuery_linkHeader path n marker hpath) hfollows
    rw [List.take_append_drop] at hwhole
    exact hwhole

end Walk

theorem decimal_plainForm (n : Nat) : PlainForm (Str.decimal n) := by
  intro byte hbyte
  obtain ⟨hlow, hhigh⟩ := (Str.decimal_digits n).2 byte hbyte
  refine ⟨UInt8.lt_of_le_of_lt hhigh (by decide), ?_, ?_, ?_, ?_⟩
  · exact fun heq => absurd (heq ▸ hlow) (by decide)
  · exact fun heq => absurd (heq ▸ hlow) (by decide)
  · exact fun heq => absurd (heq ▸ hlow) (by decide)
  · exact fun heq => absurd (heq ▸ hhigh) (by decide)

theorem key_plainForm : PlainForm (str "n") ∧ PlainForm (str "last") := by
  unfold PlainForm
  exact ⟨Str.forall_of_all (by decide), Str.forall_of_all (by decide)⟩

theorem formPairs_firstQuery (n : Nat) :
    formPairs (firstQuery n) = [(str "n", Str.decimal n)] :=
  formPairs_one (str "n") (Str.decimal n) key_plainForm.1 (decimal_plainForm n)

theorem pageLimit_firstQuery (n : Nat) (hn : n < 2 ^ 64) : pageLimit (firstQuery n) = some n := by
  unfold pageLimit queryParam
  rw [formPairs_firstQuery]
  exact Str.parseU64_decimal n hn

theorem pageLast_firstQuery (n : Nat) : pageLast (firstQuery n) = [] := by
  unfold pageLast queryParam
  rw [formPairs_firstQuery]
  rfl

theorem after_empty (items : NameSet) :
    items.after [] = items.names ↔ [] ∉ items.names := by
  unfold NameSet.after Cursor.after
  rw [List.filter_eq_self]
  constructor
  · intro h hmem
    exact absurd (of_decide_eq_true (h [] hmem)) (lt_irrefl _)
  · intro h name hname
    cases name with
    | nil => exact absurd hname h
    | cons byte rest => exact decide_eq_true (List.nil_lt_cons _ _)

theorem follows_nonempty (path : Str) (hpath : PlainPath path) (items : NameSet) (query : Str)
    (listed : List Str) (h : Follows (listResponse path items) query listed) : [] ∉ listed := by
  have hafter : ∀ last, [] ∉ items.after last := by
    intro last hmem
    have hlt := ((Cursor.mem_after _ _ _ _).mp hmem).2
    exact absurd hlt (List.not_lt_nil _)
  induction h with
  | last query listing h hlink =>
    rcases listResponse_cases path hpath items query listing h with
      ⟨n, marker, _, _, _, _, _, rfl⟩ | ⟨_, rfl⟩ | ⟨_, rfl⟩
    · cases hlink
    · exact List.not_mem_nil
    · exact hafter _
  | next query listing link following rest h hlink hquery hrest ih =>
    rcases listResponse_cases path hpath items query listing h with
      ⟨n, marker, _, _, _, _, _, rfl⟩ | ⟨_, rfl⟩ | ⟨_, rfl⟩
    · rw [List.mem_append, not_or]
      exact ⟨fun hmem => hafter _ (List.mem_of_mem_take hmem), ih⟩
    · cases hlink
    · cases hlink

/-- The links lead through the whole set when no name is empty and every page break is
carried. -/
def Lossless (items : NameSet) (n : Nat) : Prop :=
  [] ∉ items.names ∧ Resumes items (some n) items.names

theorem follows_iff_lossless (path : Str) (hpath : PlainPath path) (items : NameSet) (n : Nat)
    (hn : n < 2 ^ 64) :
    Follows (listResponse path items) (firstQuery n) items.names ↔ Lossless items n := by
  constructor
  · intro h
    have hempty := follows_nonempty path hpath items _ _ h
    have hall := (after_empty items).mpr hempty
    have hresumes := resumes_of_follows path hpath items _ _ h
      (by rw [pageLast_firstQuery, hall])
    rw [pageLimit_firstQuery n hn] at hresumes
    exact ⟨hempty, hresumes⟩
  · intro h
    exact follows_of_resumes path hpath items _ _ h.2 _ (pageLimit_firstQuery n hn)
      (by rw [pageLast_firstQuery, (after_empty items).mpr h.1])

def PlainName (name : Str) : Prop :=
  name ≠ [] ∧ PlainForm name ∧ ∀ byte ∈ name, keptInQuery byte = true

theorem PlainName.header {name : Str} (h : PlainName name) : headerValid name = true := by
  refine List.all_eq_true.mpr fun byte hbyte => ?_
  have hkept := h.2.2 byte hbyte
  unfold keptInQuery at hkept
  simp only [Bool.and_eq_true, decide_eq_true_eq] at hkept
  obtain ⟨⟨⟨⟨⟨⟨hlow, hhigh⟩, _⟩, _⟩, _⟩, _⟩, _⟩ := hkept
  have hspace : (0x20 : UInt8) ≤ byte := UInt8.le_trans (by decide) hlow
  have hdelete : byte ≠ 0x7F := fun heq => absurd (heq ▸ hhigh) (by decide)
  simp [hspace, hdelete]

theorem formPairs_carriedQuery (n : Nat) (name : Str) (h : PlainName name) :
    formPairs (carriedQuery n name) = [(str "n", Str.decimal n), (str "last", name)] := by
  have hkept : ∀ byte ∈ name, byte ≠ 0x3E ∧ byte ≠ 0x23 := by
    intro byte hbyte
    have hkept := h.2.2 byte hbyte
    exact ⟨fun heq => absurd (heq ▸ hkept) (by decide), fun heq => absurd (heq ▸ hkept) (by decide)⟩
  have htarget : (name.takeWhile (· ≠ 0x3E)).takeWhile (· ≠ 0x23) = name := by
    rw [List.takeWhile_eq_self_iff.mpr fun byte hbyte => decide_eq_true (hkept byte hbyte).1,
      List.takeWhile_eq_self_iff.mpr fun byte hbyte => decide_eq_true (hkept byte hbyte).2]
  have hdigits : ∀ byte ∈ Str.decimal n, keptInQuery byte = true := by
    intro byte hbyte
    obtain ⟨hlow, hhigh⟩ := (Str.decimal_digits n).2 byte hbyte
    have hother : ∀ other : UInt8, ¬ 0x30 ≤ other ∨ ¬ other ≤ 0x39 → byte ≠ other := by
      intro other hnot heq
      rcases hnot with hnot | hnot
      · exact hnot (heq ▸ hlow)
      · exact hnot (heq ▸ hhigh)
    have hfrom : (0x21 : UInt8) ≤ byte := UInt8.le_trans (by decide) hlow
    have hto : byte ≤ (0x7E : UInt8) := UInt8.le_trans hhigh (by decide)
    unfold keptInQuery
    simp [hfrom, hto, hother 0x22 (by decide), hother 0x23 (by decide), hother 0x27 (by decide),
      hother 0x3C (by decide), hother 0x3E (by decide)]
  have hall : ∀ byte ∈ str "n=" ++ Str.decimal n ++ str "&last=" ++ name,
      keptInQuery byte = true := by
    have hname : ∀ byte ∈ str "n=", keptInQuery byte = true :=
      Str.forall_of_all (by decide)
    have hlast : ∀ byte ∈ str "&last=", keptInQuery byte = true :=
      Str.forall_of_all (by decide)
    intro byte hbyte
    simp only [List.mem_append] at hbyte
    rcases hbyte with ((hbyte | hbyte) | hbyte) | hbyte
    · exact hname byte hbyte
    · exact hdigits byte hbyte
    · exact hlast byte hbyte
    · exact h.2.2 byte hbyte
  have hquery : str "n=" ++ Str.decimal n ++ str "&last=" ++ name =
      str "n" ++ 0x3D :: Str.decimal n ++ 0x26 :: (str "last" ++ 0x3D :: name) := by
    simp only [List.append_assoc, List.cons_append]
    rfl
  unfold carriedQuery
  rw [htarget, escapeQuery_kept _ hall, hquery]
  exact formPairs_two _ _ _ _ key_plainForm.1 (decimal_plainForm n) key_plainForm.2 h.2.1

theorem carried_plain (items : NameSet) (n : Nat) (hn : n < 2 ^ 64) (name : Str)
    (h : PlainName name) :
    Carried items n name ∧ pageLimit (carriedQuery n name) = some n := by
  have hpairs := formPairs_carriedQuery n name h
  have hlast : pageLast (carriedQuery n name) = name := by
    unfold pageLast queryParam
    rw [hpairs]
    rfl
  refine ⟨⟨h.header, by rw [hlast]⟩, ?_⟩
  unfold pageLimit queryParam
  rw [hpairs]
  exact Str.parseU64_decimal n hn

theorem lossless_of_plain (items : NameSet) (n : Nat) (hn : n ≠ 0) (h64 : n < 2 ^ 64)
    (h : ∀ name ∈ items.names, PlainName name) : Lossless items n := by
  have hresumes : ∀ size (left : List Str), left.length ≤ size → (∀ name ∈ left, PlainName name) →
      Resumes items (some n) left := by
    intro size
    induction size with
    | zero => exact fun left hsize _ => Resumes.fits n left (by omega)
    | succ size ih =>
      intro left hsize hleft
      by_cases hlength : n < left.length
      · have hne : left.take n ≠ [] := by
          rw [Ne, List.take_eq_nil_iff, not_or]
          refine ⟨hn, fun hnil => ?_⟩
          rw [hnil] at hlength
          exact absurd hlength (Nat.not_lt_zero n)
        have hmarker := List.getLast?_eq_some_getLast hne
        have hplain := hleft _ (List.mem_of_mem_take (List.getLast_mem hne))
        obtain ⟨hcarried, hlimit⟩ := carried_plain items n h64 _ hplain
        refine Resumes.breaks n left _ hn hlength hmarker hcarried ?_
        rw [hlimit]
        refine ih (left.drop n) ?_ fun name hname => hleft name (List.mem_of_mem_drop hname)
        rw [List.length_drop]
        omega
      · exact Resumes.fits n left (Nat.le_of_not_lt hlength)
  exact ⟨fun hmem => (h [] hmem).1 rfl, hresumes _ items.names le_rfl h⟩

theorem IsTag.plainName {tag : Str} (h : IsTag tag) : PlainName tag := by
  have hbyte : ∀ n < 256, isTagByte (UInt8.ofNat n) = true →
      (UInt8.ofNat n < 0x80 ∧ UInt8.ofNat n ≠ 0x25 ∧ UInt8.ofNat n ≠ 0x2B ∧
        UInt8.ofNat n ≠ 0x26 ∧ UInt8.ofNat n ≠ 0x3D) ∧ keptInQuery (UInt8.ofNat n) = true := by
    decide +kernel
  have hplain : ∀ byte ∈ tag, (byte < 0x80 ∧ byte ≠ 0x25 ∧ byte ≠ 0x2B ∧ byte ≠ 0x26 ∧
      byte ≠ 0x3D) ∧ keptInQuery byte = true := by
    intro byte hmem
    have hchecked := hbyte byte.toNat byte.toNat_lt
    rw [UInt8.ofNat_toNat] at hchecked
    exact hchecked (h.bytes byte hmem)
  exact ⟨h.isSegment.1, fun byte hmem => (hplain byte hmem).1, fun byte hmem => (hplain byte hmem).2⟩

theorem plainPath_append (path more : Str) (h : PlainPath path) (h' : PlainPath more) :
    PlainPath (path ++ more) := by
  refine ⟨?_, fun byte hbyte => ?_⟩
  · have happend : headerValid (path ++ more) = (headerValid path && headerValid more) :=
      List.all_append
    rw [happend, h.1, h'.1]
    rfl
  · rcases List.mem_append.mp hbyte with hbyte | hbyte
    · exact h.2 byte hbyte
    · exact h'.2 byte hbyte

theorem RepositoryName.plainPath {name : Str} (h : RepositoryName name) : PlainPath name := by
  have hchecked : ∀ n < 256, (isTagByte (UInt8.ofNat n) = true ∨ UInt8.ofNat n = 0x2F) →
      ((0x20 ≤ UInt8.ofNat n && UInt8.ofNat n != 0x7F) || UInt8.ofNat n == 0x09) = true ∧
        UInt8.ofNat n ≠ 0x3C ∧ UInt8.ofNat n ≠ 0x3E ∧ UInt8.ofNat n ≠ 0x23 ∧
        UInt8.ofNat n ≠ 0x3F := by
    decide +kernel
  have hplain : ∀ byte ∈ name, ((0x20 ≤ byte && byte != 0x7F) || byte == 0x09) = true ∧
      byte ≠ 0x3C ∧ byte ≠ 0x3E ∧ byte ≠ 0x23 ∧ byte ≠ 0x3F := by
    intro byte hbyte
    have hall := hchecked byte.toNat byte.toNat_lt
    rw [UInt8.ofNat_toNat] at hall
    exact hall (h.bytes byte hbyte)
  exact ⟨List.all_eq_true.mpr fun byte hbyte => (hplain byte hbyte).1,
    fun byte hbyte => (hplain byte hbyte).2⟩

theorem tagListPath_plain (name : Str) (h : RepositoryName name) : PlainPath (tagListPath name) := by
  have hstart : PlainPath (str "/v2/") := ⟨by decide, Str.forall_of_all (by decide)⟩
  have hend : PlainPath (str "/tags/list") := ⟨by decide, Str.forall_of_all (by decide)⟩
  exact plainPath_append _ _ (plainPath_append _ _ hstart h.plainPath) hend

/-- Tag list and catalog are read in full, and no answer panics, exactly when the links
carry the names they break at. -/
theorem pages_lossless_iff (items : NameSet) (n : Nat) (hn : n < 2 ^ 64) :
    (∀ name, RepositoryName name →
      (Follows (tagListResponse name items) (firstQuery n) items.names ↔ Lossless items n)) ∧
    (Follows (catalogResponse items) (firstQuery n) items.names ↔ Lossless items n) := by
  constructor
  · intro name hname
    exact follows_iff_lossless (tagListPath name) (tagListPath_plain name hname) items n hn
  · have hpath : PlainPath (str "/v2/_catalog") := ⟨by decide, Str.forall_of_all (by decide)⟩
    exact follows_iff_lossless (str "/v2/_catalog") hpath items n hn

theorem pages_lossless_team :
    Follows (tagListResponse (str "team/blobs") ⟨[str "v1", str "v2"], by decide⟩) (firstQuery 1)
      [str "v1", str "v2"] := by
  refine ((pages_lossless_iff ⟨[str "v1", str "v2"], by decide⟩ 1 (by decide)).1 _
    teamBlobs_name).mpr (lossless_of_plain _ 1 (by decide) (by decide) fun name hname => ?_)
  have htag : ∀ name ∈ [str "v1", str "v2"], validTag name = true := by decide
  exact ((validTag_iff name).mp (htag name hname)).plainName

theorem not_follows_of_panic (respond : Str → Option Listing) (query : Str) (listed : List Str)
    (hpanic : respond query = none) : ¬ Follows respond query listed := by
  intro h
  cases h with
  | last query listing h hlink => exact absurd (hpanic.symm.trans h) nofun
  | next query listing link following rest h hlink hquery hrest =>
    exact absurd (hpanic.symm.trans h) nofun

/-- A line feed in a tag panics; a tag with a plus is listed again and again. -/
theorem tagList_newline_panics :
    (tagListResponse (str "team/blobs") ⟨[str "v1\n", str "v2"], by decide⟩ (firstQuery 1) = none ∧
      ¬ Follows (tagListResponse (str "team/blobs") ⟨[str "v1\n", str "v2"], by decide⟩)
        (firstQuery 1) [str "v1\n", str "v2"]) ∧
    ∃ link, tagListResponse (str "team/blobs") ⟨[str "v1+b", str "v2"], by decide⟩ (firstQuery 1) =
        some ⟨[str "v1+b"], some link⟩ ∧
      (linkQuery link).bind
        (tagListResponse (str "team/blobs") ⟨[str "v1+b", str "v2"], by decide⟩) =
        some ⟨[str "v1+b"], some link⟩ := by
  have hpanic : tagListResponse (str "team/blobs") ⟨[str "v1\n", str "v2"], by decide⟩
      (firstQuery 1) = none := by decide +kernel
  exact ⟨⟨hpanic, not_follows_of_panic _ _ _ hpanic⟩,
    linkHeader (tagListPath (str "team/blobs")) 1 (str "v1+b"), by decide +kernel, by decide +kernel⟩

end Peryx.Oci
