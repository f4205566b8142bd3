import Peryx.Oci.ServedDigests

/-! # Negotiating with a legacy client (registry/manifests/mod.rs:90-132) -/

namespace Peryx.Oci
open Storage

theorem tagAt_text {rows : Rows} (h : Obeys tagLaw rows) {index repo tag digest : Str}
    (hat : tagAt rows index repo tag = some digest) : headerText digest = true := by
  obtain ⟨raw, hraw, hdigest⟩ := Option.bind_eq_some_iff.mp hat
  have hlaw := h _ _ hraw
  have hsame : digest = raw := by
    unfold Str.fromUtf8 at hdigest
    split at hdigest
    · cases hdigest
      rfl
    · cases hdigest
  rw [hsame]
  refine hlaw.1 ?_
  rw [tagKey_eq]
  exact List.prefix_append _ _

theorem freshnessAt_text {rows : Rows} (h : Obeys tagLaw rows) {index repo tag : Str}
    {dated : Int × Str} (hat : freshnessAt rows index repo tag = some dated) :
    headerText dated.2 = true := by
  unfold freshnessAt at hat
  split at hat
  · rename_i raw hraw
    split at hat
    · cases hat
    · obtain ⟨digest, hdigest, rfl⟩ := Option.map_eq_some_iff.mp hat
      have hlaw := h _ _ hraw
      have hsame : digest = raw.drop 8 := by
        unfold Str.fromUtf8 at hdigest
        split at hdigest
        · cases hdigest
          rfl
        · cases hdigest
      show headerText digest = true
      rw [hsame]
      refine hlaw.2 ?_
      rw [tagFreshnessKey_eq]
      exact List.prefix_append _ _
  · cases hat

def NamesStored (t : Stores) (found : Option Reply) : Prop :=
  ∀ reply, found = some (.manifest reply) →
    headerText reply.digest = true ∧ (manifestAt t.rows reply.digest).isSome

theorem Undeleted.earlier {s t : Stores} (h : Undeleted s t) (digest : Str)
    (hnone : manifestAt t.rows digest = none) : manifestAt s.rows digest = none := by
  cases hs : manifestAt s.rows digest with
  | none => rfl
  | some manifest =>
    have hkept := h.kept digest (by rw [hs]; rfl)
    rw [hnone] at hkept
    cases hkept

theorem namesStored_none (t : Stores) : NamesStored t none := nofun

section Serving
variable (sha256 : Bytes → Str) (parse : Bytes → Option Json)
  (upstream : Index → UpstreamClient → Str → Str → Except UpstreamError UpstreamManifest)
  (manifestDigest : Index → UpstreamClient → Str → Str → Except UpstreamError (Option Str))
  (bounds : Bounds) (clock : Index → Readings) (member : Index) (repo tag : Str) (head : Bool)

theorem storedReply_among (digest : Str) (hdigest : headerText digest = true) {s t : Stores}
    {found : Option Reply} (h : Prog.Among Undeleted (storedReply head digest) s found t) :
    Undeleted s t ∧ NamesStored t found := by
  obtain ⟨manifest, m, hread, hdone⟩ := Prog.among_bind h
  obtain ⟨hmanifest, hsm⟩ := Prog.among_read hread
  obtain ⟨rfl, rfl⟩ := Prog.among_done hdone
  refine ⟨hsm, fun reply hreply => ?_⟩
  obtain ⟨kept, hkept, heq⟩ := Option.map_eq_some_iff.mp hreply
  cases heq
  refine ⟨hdigest, hsm.kept digest ?_⟩
  rw [← hmanifest, hkept]
  rfl

theorem freshTag_among (now : Int) {s t : Stores} {found : Option Reply}
    (hlaw : Obeys tagLaw s.rows)
    (h : Prog.Among Undeleted (freshTag bounds member repo tag head now) s found t) :
    Undeleted s t ∧ NamesStored t found := by
  obtain ⟨dated, m, hread, hrest⟩ := Prog.among_bind h
  obtain ⟨hdated, hsm⟩ := Prog.among_read hread
  cases dated with
  | none =>
    obtain ⟨rfl, rfl⟩ := Prog.among_done hrest
    exact ⟨hsm, namesStored_none _⟩
  | some dated =>
    have htext := freshnessAt_text hlaw hdated.symm
    dsimp only at hrest
    split at hrest
    · obtain ⟨rfl, rfl⟩ := Prog.among_done hrest
      exact ⟨hsm, namesStored_none _⟩
    · obtain ⟨hmt, hnames⟩ := storedReply_among head dated.2 htext hrest
      exact ⟨undeleted_trans _ _ _ hsm hmt, hnames⟩

theorem staleTag_among {s t : Stores} {found : Option Reply} (hlaw : Obeys tagLaw s.rows)
    (h : Prog.Among Undeleted (staleTag bounds clock member repo tag head) s found t) :
    Undeleted s t ∧ NamesStored t found := by
  obtain ⟨dated, m, hread, hrest⟩ := Prog.among_bind h
  obtain ⟨hdated, hsm⟩ := Prog.among_read hread
  cases dated with
  | none =>
    obtain ⟨rfl, rfl⟩ := Prog.among_done hrest
    exact ⟨hsm, namesStored_none _⟩
  | some dated =>
    have htext := freshnessAt_text hlaw hdated.symm
    dsimp only at hrest
    split at hrest
    · obtain ⟨hmt, hnames⟩ := storedReply_among head dated.2 htext hrest
      exact ⟨undeleted_trans _ _ _ hsm hmt, hnames⟩
    · obtain ⟨rfl, rfl⟩ := Prog.among_done hrest
      exact ⟨hsm, namesStored_none _⟩

theorem unchangedTag_among (client : UpstreamClient) {s t : Stores} {found : Option Reply}
    (hlaw : Obeys tagLaw s.rows)
    (h : Prog.Among Undeleted (unchangedTag manifestDigest clock member repo tag head client) s
      found t) : Undeleted s t ∧ NamesStored t found := by
  obtain ⟨dated, m, hread, hrest⟩ := Prog.among_bind h
  obtain ⟨hdated, hsm⟩ := Prog.among_read hread
  have hnothing : Prog.Among Undeleted (pure none : Prog Stores (Option Reply)) m found t →
      Undeleted s t ∧ NamesStored t found := by
    intro hdone
    obtain ⟨rfl, rfl⟩ := Prog.among_done hdone
    exact ⟨hsm, namesStored_none _⟩
  cases dated with
  | none => exact hnothing hrest
  | some dated =>
    have htext := freshnessAt_text hlaw hdated.symm
    dsimp only at hrest
    split at hrest
    · split at hrest
      · exact hnothing hrest
      · obtain ⟨manifest, n, hget, hlast⟩ := Prog.among_bind hrest
        obtain ⟨hmanifest, hmn⟩ := Prog.among_read hget
        cases manifest with
        | none =>
          obtain ⟨rfl, rfl⟩ := Prog.among_done hlast
          exact ⟨undeleted_trans _ _ _ hsm hmn, namesStored_none _⟩
        | some manifest =>
          obtain ⟨_, r, hset, hdone⟩ := Prog.among_bind hlast
          have hnr := (always_setTagFreshness _ _ _ _ _ htext).among undeleted_refl undeleted_trans
            hset
          obtain ⟨rfl, rfl⟩ := Prog.among_done hdone
          refine ⟨undeleted_trans _ _ _ (undeleted_trans _ _ _ hsm hmn) hnr, fun reply hreply => ?_⟩
          cases hreply
          refine ⟨htext, hnr.kept _ (hmn.kept _ ?_)⟩
          show (manifestAt m.rows dated.2).isSome
          rw [← hmanifest]
          rfl
    · exact hnothing hrest

structure TagOutcome (s t : Stores) (answer : Except Fault (Option Reply)) : Prop where
  related : Undeleted s t
  noPanic : answer ≠ .error .panicked
  names : ∀ found, answer = .ok found → NamesStored t found

variable (hsha : ∀ bytes, digestFromHex (sha256 bytes) = some (sha256 bytes))
  (htype : ∀ member client repo reference response,
    upstream member client repo reference = .ok response →
      headerText (response.contentType.getD defaultManifestType) = true)

include hsha in
theorem storeTagged_among (response : UpstreamManifest)
    (htype : headerText (response.contentType.getD defaultManifestType) = true) {s t : Stores}
    {answer : Except Fault (Manifest × Str)}
    (h : Prog.Among Undeleted (storeTagged sha256 parse clock member repo tag response) s answer t) :
    Undeleted s t ∧ answer ≠ .error .panicked ∧ ∀ manifest canonical,
      answer = .ok (manifest, canonical) →
        headerText canonical = true ∧ (manifestAt t.rows canonical).isSome := by
  obtain ⟨stored, m, hstore, hrest⟩ := Prog.among_bind h
  obtain ⟨hsm, hnoPanic, _, hstored⟩ :=
    storeManifest_among sha256 parse hsha member.name repo response htype hstore
  cases stored with
  | error fault =>
    obtain ⟨rfl, rfl⟩ := Prog.among_done hrest
    exact ⟨hsm, fun heq => hnoPanic (by cases heq; rfl), nofun⟩
  | ok pair =>
    obtain ⟨manifest, canonical⟩ := pair
    obtain ⟨_, htext, hsome⟩ := hstored manifest canonical rfl
    obtain ⟨_, n, hput, hlast⟩ := Prog.among_bind hrest
    have hmn := (always_putTag _ _ _ _ htext).among undeleted_refl undeleted_trans hput
    obtain ⟨_, r, hset, hdone⟩ := Prog.among_bind hlast
    have hnr := (always_setTagFreshness _ _ _ _ _ htext).among undeleted_refl undeleted_trans hset
    obtain ⟨rfl, rfl⟩ := Prog.among_done hdone
    refine ⟨undeleted_trans _ _ _ (undeleted_trans _ _ _ hsm hmn) hnr, nofun, fun other digest heq => ?_⟩
    cases heq
    exact ⟨htext, hnr.kept _ (hmn.kept _ hsome)⟩

include hsha htype in
theorem fetchTag_among (client : UpstreamClient) {s t : Stores}
    {answer : Except Fault (Option Reply)} (hlaw : Obeys tagLaw s.rows)
    (h : Prog.Among Undeleted
      (fetchTag sha256 parse upstream bounds clock member repo tag head client) s answer t) :
    TagOutcome s t answer := by
  -- an upstream error: the stale tag, or the error
  have hfailed : ∀ error : UpstreamError, ∀ {u : Stores} {stale : Option Reply},
      Undeleted s u ∧ NamesStored u stale →
      TagOutcome s u (.ok (some (stale.getD (upstreamErrorResponse error (str "manifest"))))) := by
    intro error u stale hstale
    refine ⟨hstale.1, nofun, fun found heq reply hreply => ?_⟩
    cases heq
    cases stale with
    | none =>
      obtain ⟨other, hother⟩ := upstreamErrorResponse_error error (str "manifest")
      rw [Option.getD_none, hother] at hreply
      cases hreply
    | some kept => exact hstale.2 reply hreply
  unfold fetchTag at h
  split at h
  · rename_i response hresponse
    obtain ⟨stored, m, hstore, hrest⟩ := Prog.among_bind h
    obtain ⟨hsm, hnoPanic, hstored⟩ := storeTagged_among sha256 parse clock member repo tag hsha response
      (htype member client repo tag response hresponse) hstore
    cases stored with
    | error fault =>
      obtain ⟨rfl, rfl⟩ := Prog.among_done hrest
      exact ⟨hsm, fun heq => hnoPanic (by cases heq; rfl), nofun⟩
    | ok pair =>
      obtain ⟨rfl, rfl⟩ := Prog.among_done hrest
      refine ⟨hsm, nofun, fun found heq reply hreply => ?_⟩
      cases heq
      cases hreply
      exact hstored pair.1 pair.2 rfl
  · rename_i code text hstatus
    split at h
    · obtain ⟨_, m, hdelete, hdone⟩ := Prog.among_bind h
      have hsm := (always_deleteTag _ _ _).among undeleted_refl undeleted_trans hdelete
      obtain ⟨rfl, rfl⟩ := Prog.among_done hdone
      exact ⟨hsm, nofun, fun found heq => by cases heq; exact namesStored_none _⟩
    · obtain ⟨stale, m, hstale, hrest⟩ := Prog.among_bind h
      have hkept := staleTag_among bounds clock member repo tag head hlaw hstale
      split at hrest
      · obtain ⟨rfl, rfl⟩ := Prog.among_done hrest
        exact ⟨hkept.1, nofun, fun found heq => by cases heq; exact hkept.2⟩
      · obtain ⟨rfl, rfl⟩ := Prog.among_done hrest
        exact hfailed _ hkept
  · rename_i error _ _
    obtain ⟨stale, m, hstale, hrest⟩ := Prog.among_bind h
    have hkept := staleTag_among bounds clock member repo tag head hlaw hstale
    obtain ⟨rfl, rfl⟩ := Prog.among_done hrest
    exact hfailed _ hkept

theorem tagOutcome_found {s t u : Stores} {reply : Reply} {answer : Except Fault (Option Reply)}
    (hst : Undeleted s t) (hnames : NamesStored t (some reply))
    (h : Prog.Among Undeleted (pure (.ok (some reply)) : Prog Stores _) t answer u) :
    TagOutcome s u answer := by
  obtain ⟨rfl, rfl⟩ := Prog.among_done h
  exact ⟨hst, nofun, fun found heq => by cases heq; exact hnames⟩

theorem TagOutcome.after {s t u : Stores} {answer : Except Fault (Option Reply)}
    (h : TagOutcome t u answer) (hst : Undeleted s t) : TagOutcome s u answer :=
  ⟨undeleted_trans _ _ _ hst h.related, h.noPanic, h.names⟩

include hsha htype in
theorem memberTag_among {s t : Stores} {answer : Except Fault (Option Reply)}
    (hlaw : Obeys tagLaw s.rows)
    (h : Prog.Among Undeleted
      (memberTag sha256 parse upstream manifestDigest bounds clock member repo tag head) s answer t) :
    TagOutcome s t answer := by
  unfold memberTag at h
  split at h
  · obtain ⟨digest, m, hread, hrest⟩ := Prog.among_bind h
    obtain ⟨hdigest, hsm⟩ := Prog.among_read hread
    cases digest with
    | none =>
      obtain ⟨rfl, rfl⟩ := Prog.among_done hrest
      exact ⟨hsm, nofun, fun found heq => by cases heq; exact namesStored_none _⟩
    | some digest =>
      obtain ⟨found, n, hstored, hdone⟩ := Prog.among_bind hrest
      obtain ⟨hmn, hnames⟩ := storedReply_among head digest (tagAt_text hlaw hdigest.symm) hstored
      obtain ⟨rfl, rfl⟩ := Prog.among_done hdone
      exact ⟨undeleted_trans _ _ _ hsm hmn, nofun, fun other heq => by cases heq; exact hnames⟩
  · rename_i client _
    obtain ⟨fresh, m, hfresh, hrest⟩ := Prog.among_bind h
    obtain ⟨hsm, hnames⟩ := freshTag_among bounds member repo tag head _ hlaw hfresh
    cases fresh with
    | some reply => exact tagOutcome_found hsm hnames hrest
    | none =>
      obtain ⟨gated, n, hgated, hrest⟩ := Prog.among_bind hrest
      obtain ⟨hmn, hnames⟩ := freshTag_among bounds member repo tag head _ (hsm.lawful hlaw) hgated
      have hsn := undeleted_trans _ _ _ hsm hmn
      cases gated with
      | some reply => exact tagOutcome_found hsn hnames hrest
      | none =>
        obtain ⟨unchanged, r, hunchanged, hrest⟩ := Prog.among_bind hrest
        obtain ⟨hnr, hnames⟩ := unchangedTag_among manifestDigest clock member repo tag head client
          (hsn.lawful hlaw) hunchanged
        have hsr := undeleted_trans _ _ _ hsn hnr
        cases unchanged with
        | some reply => exact tagOutcome_found hsr hnames hrest
        | none =>
          exact (fetchTag_among sha256 parse upstream bounds clock member repo tag head hsha htype
            client (hsr.lawful hlaw) hrest).after hsr

include hsha htype in
theorem serveTag_among (members : List Index) {s t : Stores}
    {answer : Except Fault (Option Reply)} (hlaw : Obeys tagLaw s.rows)
    (h : Prog.Among Undeleted
      (serveTag sha256 parse upstream manifestDigest bounds clock repo tag head members) s answer t) :
    TagOutcome s t answer := by
  induction members generalizing s with
  | nil =>
    obtain ⟨rfl, rfl⟩ := Prog.among_done h
    exact ⟨undeleted_refl s, nofun, fun found heq => by cases heq; exact namesStored_none _⟩
  | cons member members ih =>
    obtain ⟨first, m, hmember, hrest⟩ := Prog.among_bind h
    have hfirst := memberTag_among sha256 parse upstream manifestDigest bounds clock member repo tag head
      hsha htype hlaw hmember
    have hsame : first ≠ .ok none → TagOutcome s t answer := by
      intro hne
      cases first with
      | error fault =>
        obtain ⟨rfl, rfl⟩ := Prog.among_done hrest
        exact hfirst
      | ok found =>
        cases found with
        | none => exact absurd rfl hne
        | some reply =>
          obtain ⟨rfl, rfl⟩ := Prog.among_done hrest
          exact hfirst
    by_cases hmiss : first = .ok none
    · rw [hmiss] at hrest
      exact (ih (hfirst.related.lawful hlaw) hrest).after hfirst.related
    · exact hsame hmiss

include hsha htype in
theorem negotiateManifest_among (members : List Index) (accept : Option Str)
    (served : ManifestReply) {s t : Stores} {answer : Except Fault Reply}
    (h : Prog.Among Undeleted
      (negotiateManifest sha256 parse upstream members repo accept (.manifest served) head) s
      answer t) :
    answer = .error .panicked ↔ accept.any acceptExcludesListTypes = true ∧
      isListMediaType served.mediaType = true ∧ manifestAt s.rows served.digest = none := by
  unfold negotiateManifest at h
  dsimp only at h
  split at h
  · rename_i hlist
    obtain ⟨found, m, hread, hrest⟩ := Prog.among_bind h
    obtain ⟨hfound, -⟩ := Prog.among_read hread
    cases found with
    | none =>
      obtain ⟨rfl, rfl⟩ := Prog.among_done hrest
      exact ⟨fun _ => ⟨hlist.1, hlist.2, hfound.symm⟩, fun _ => rfl⟩
    | some list =>
      have hstored : manifestAt s.rows served.digest ≠ none := by
        rw [← hfound]
        exact nofun
      have hnoPanic : answer ≠ .error .panicked := by
        dsimp only at hrest
        split at hrest
        · obtain ⟨rfl, rfl⟩ := Prog.among_done hrest
          exact nofun
        · rename_i child _
          obtain ⟨kept, n, -, hchild⟩ := Prog.among_bind hrest
          cases kept with
          | some manifest =>
            obtain ⟨rfl, rfl⟩ := Prog.among_done hchild
            exact nofun
          | none =>
            obtain ⟨pulled, r, hpull, hlast⟩ := Prog.among_bind hchild
            have hpulled := (pullFromMembers_among sha256 parse upstream hsha htype members repo
              child head hpull).noPanic
            cases pulled with
            | error fault =>
              obtain ⟨rfl, rfl⟩ := Prog.among_done hlast
              exact fun heq => hpulled (by cases heq; rfl)
            | ok pulled =>
              obtain ⟨rfl, rfl⟩ := Prog.among_done hlast
              exact nofun
      exact ⟨fun heq => absurd heq hnoPanic, fun hlost => absurd hlost.2.2 hstored⟩
  · rename_i hplain
    obtain ⟨rfl, rfl⟩ := Prog.among_done h
    exact ⟨nofun, fun hlost => absurd ⟨hlost.1, hlost.2.1⟩ hplain⟩

include hsha htype in
theorem negotiate_among (members : List Index) (accept : Option Str) (reply : Reply)
    (htext : ∀ served, reply = .manifest served → headerText served.digest = true)
    {s t : Stores} {answer : Except Fault Reply}
    (h : Prog.Among Undeleted (negotiate sha256 parse upstream members repo accept reply head) s
      answer t) :
    answer = .error .panicked ↔ ∃ served, reply = .manifest served ∧
      accept.any acceptExcludesListTypes = true ∧ isListMediaType served.mediaType = true ∧
        manifestAt s.rows served.digest = none := by
  have hother : (∀ served, reply ≠ .manifest served) →
      Prog.Among Undeleted (pure (.ok reply) : Prog Stores (Except Fault Reply)) s answer t →
      (answer = .error .panicked ↔ ∃ served, reply = .manifest served ∧
        accept.any acceptExcludesListTypes = true ∧ isListMediaType served.mediaType = true ∧
          manifestAt s.rows served.digest = none) := by
    intro hno hdone
    obtain ⟨rfl, rfl⟩ := Prog.among_done hdone
    exact ⟨nofun, fun ⟨served, heq, _⟩ => absurd heq (hno served)⟩
  cases hreply : reply with
  | manifest served =>
    rw [hreply] at h
    unfold negotiate at h
    dsimp only at h
    rw [if_neg fun hunread => by rw [htext served hreply] at hunread; cases hunread.2] at h
    rw [negotiateManifest_among sha256 parse upstream repo head hsha htype members accept served h]
    constructor
    · intro hlost
      exact ⟨served, rfl, hlost⟩
    · intro ⟨other, heq, hlost⟩
      cases heq
      exact hlost
  | _ => exact hreply ▸ hother (by rw [hreply]; exact fun _ => nofun) (by rw [hreply] at h ⊢; exact h)

theorem digestShape_text (digest : Str) (h : DigestShape digest) : headerText digest = true := by
  have hname : ∀ byte, isNameByte byte = true → 0x20 ≤ byte ∧ byte ≤ 0x7E := by
    intro byte hbyte
    simp only [isNameByte, Bool.or_eq_true, Bool.and_eq_true, decide_eq_true_eq] at hbyte
    rcases hbyte with hletter | hdigit
    · exact ⟨UInt8.le_trans (by decide) hletter.1, UInt8.le_trans hletter.2 (by decide)⟩
    · exact ⟨UInt8.le_trans (by decide) hdigit.1, UInt8.le_trans hdigit.2 (by decide)⟩
  have hvisible : ∀ byte, (isAlgorithmByte byte = true ∨ byte = 0x3A ∨ isEncodedByte byte = true) →
      0x20 ≤ byte ∧ byte ≤ 0x7E := by
    intro byte hbyte
    simp only [isAlgorithmByte, isEncodedByte, Bool.or_eq_true, beq_iff_eq] at hbyte
    rcases hbyte with ((((h | rfl) | rfl) | rfl) | rfl) | rfl | ((h | rfl) | rfl) | rfl
    all_goals first | exact hname byte h | decide
  obtain ⟨algorithm, encoded, rfl, _, halgorithm, _, hencoded⟩ := h
  refine List.all_eq_true.mpr fun byte hbyte => ?_
  have hshown : 0x20 ≤ byte ∧ byte ≤ 0x7E := by
    rcases List.mem_append.mp hbyte with hbyte | hbyte
    · exact hvisible byte (.inl (halgorithm byte hbyte))
    · rcases List.mem_cons.mp hbyte with hbyte | hbyte
      · exact hvisible byte (.inr (.inl hbyte))
      · exact hvisible byte (.inr (.inr (hencoded byte hbyte)))
  simp only [Bool.or_eq_true, Bool.and_eq_true, decide_eq_true_eq]
  exact .inl hshown

/-- A legacy client asks by a digest of another algorithm that is not stored, and the first
upstream that has it sends a list. -/
def Unkept (indexes : Indexes) (name : Str) (reference : Reference) (accept : Option Str)
    (stores : Stores) : Prop :=
  ∃ index repo digest manifest, resolve indexes.toList name = some (index, repo) ∧
    policyBlocks index .serve repo = false ∧ reference = .digest digest ∧
    accept.any acceptExcludesListTypes = true ∧
    Str.startsWith digest (str "sha256:") = false ∧ manifestAt stores.rows digest = none ∧
    sentManifest sha256 upstream repo digest (servingMembers indexes index) = some manifest ∧
    isListMediaType manifest.mediaType = true

def answerFound (members : List Index) (accept : Option Str)
    (pulled : Except Fault (Option Reply)) : Prog Stores (Except Fault Reply) :=
  match pulled with
  | .error fault => return .error fault
  | .ok served =>
    negotiate sha256 parse upstream members repo accept
      (served.getD (errorResponse .manifestUnknown (str "manifest unknown"))) head

include hsha htype in
theorem answerFound_among (members : List Index) (accept : Option Str)
    (pulled : Except Fault (Option Reply)) (hnoPanic : pulled ≠ .error .panicked)
    (htext : ∀ served, pulled = .ok (some (.manifest served)) → headerText served.digest = true)
    {m t : Stores} {answer : Except Fault Reply}
    (h : Prog.Among Undeleted (answerFound sha256 parse upstream repo head members accept pulled) m
      answer t) :
    answer = .error .panicked ↔ ∃ served, pulled = .ok (some (.manifest served)) ∧
      accept.any acceptExcludesListTypes = true ∧ isListMediaType served.mediaType = true ∧
        manifestAt m.rows served.digest = none := by
  cases pulled with
  | error fault =>
    obtain ⟨rfl, rfl⟩ := Prog.among_done h
    exact ⟨fun heq => absurd (by cases heq; rfl) hnoPanic, fun ⟨_, heq, _⟩ => by cases heq⟩
  | ok found =>
    have hreply : ∀ served, found.getD (errorResponse .manifestUnknown (str "manifest unknown")) =
        .manifest served ↔ (Except.ok found : Except Fault _) = .ok (some (.manifest served)) := by
      intro served
      cases found with
      | none => exact ⟨nofun, nofun⟩
      | some reply =>
        rw [Option.getD_some]
        exact ⟨fun heq => by rw [heq], fun heq => by cases heq; rfl⟩
    rw [negotiate_among sha256 parse upstream repo head hsha htype members accept _
      (fun served heq => htext served ((hreply served).mp heq)) h]
    exact exists_congr fun served => and_congr_left' (hreply served)

/-- While nobody unlinks a manifest, a request panics exactly when its list is stored under
another digest than it was asked for. -/
theorem negotiation_panics_iff (indexes : Indexes) (name : Str) (reference : Reference)
    (accept : Option Str) (s t : Stores) (answer : Except Fault Reply)
    (hsha : ∀ bytes, digestFromHex (sha256 bytes) = some (sha256 bytes))
    (htype : ∀ member client repo reference response,
      upstream member client repo reference = .ok response →
        headerText (response.contentType.getD defaultManifestType) = true)
    (hreference : reference.Accepted) (hlaw : Obeys tagLaw s.rows)
    (h : Prog.Among Undeleted (serveRequest sha256 parse upstream manifestDigest bounds clock indexes
      name reference head accept) s answer t) :
    answer ≠ .error .panicked ↔ ¬ Unkept sha256 upstream indexes name reference accept s := by
  refine not_congr ?_
  unfold serveRequest at h
  cases hresolve : resolve indexes.toList name with
  | none =>
    rw [hresolve] at h
    obtain ⟨rfl, rfl⟩ := Prog.among_done h
    refine ⟨nofun, fun ⟨_, _, _, _, hsome, _⟩ => ?_⟩
    rw [hresolve] at hsome
    cases hsome
  | some found =>
    obtain ⟨index, repo⟩ := found
    rw [hresolve] at h
    dsimp only at h
    cases hblocked : policyBlocks index .serve repo with
    | true =>
      rw [if_pos hblocked] at h
      obtain ⟨rfl, rfl⟩ := Prog.among_done h
      refine ⟨nofun, fun ⟨_, _, _, _, hsome, hserved, _⟩ => ?_⟩
      rw [hresolve] at hsome
      cases hsome
      rw [hblocked] at hserved
      cases hserved
    | false =>
      rw [if_neg (by rw [hblocked]; decide)] at h
      obtain ⟨pulled, m, hserve, hrest⟩ := Prog.among_bind h
      have hanswer := fun hnoPanic htext => answerFound_among sha256 parse upstream repo head hsha
        htype (servingMembers indexes index) accept pulled hnoPanic htext hrest
      cases reference with
      | tag tag =>
        have hpulled := serveTag_among sha256 parse upstream manifestDigest bounds clock repo tag head
          hsha htype (servingMembers indexes index) hlaw hserve
        rw [hanswer hpulled.noPanic fun served heq => (hpulled.names _ heq served rfl).1]
        constructor
        · intro ⟨served, heq, _, _, hnone⟩
          have hstored := (hpulled.names _ heq served rfl).2
          rw [hnone] at hstored
          cases hstored
        · intro ⟨_, _, _, _, _, _, htag, _⟩
          cases htag
      | digest digest =>
        have hpulled := serveDigest_among sha256 parse upstream hsha htype
          (servingMembers indexes index) repo digest head hserve
        rw [hanswer hpulled.noPanic fun served heq => by
          rw [(hpulled.reply served heq).1]
          exact digestShape_text digest hreference]
        constructor
        · intro ⟨served, heq, haccept, hlist, hnone⟩
          obtain ⟨hdigest, hstored⟩ := hpulled.reply served heq
          rw [hdigest] at hnone
          rcases hstored with hstored | ⟨hother, manifest, hsent, hmedia⟩
          · rw [hnone] at hstored
            cases hstored
          · exact ⟨index, repo, digest, manifest, hresolve, hblocked, rfl, haccept, hother,
              hpulled.related.earlier digest hnone, hsent, hmedia ▸ hlist⟩
        · intro ⟨other, repo', digest', manifest, hsome, _, heq, haccept, hother, hnone, hsent, hlist⟩
          rw [hresolve] at hsome
          cases hsome
          cases heq
          obtain ⟨reply, hreply, hdigest, hmedia⟩ := hpulled.sent hother hnone manifest hsent
          refine ⟨reply, hreply, haccept, hmedia ▸ hlist, ?_⟩
          rw [hdigest]
          exact hpulled.related.absent digest hother hnone

end Serving

def sha512Digest : Str := str "sha512:ab"

def listUpstream : Index → UpstreamClient → Str → Str → Except UpstreamError UpstreamManifest :=
  fun _ _ _ _ => .ok ⟨some ociIndexType, none, [.ok (str "\x7b\x7d")]⟩

/-- `hub/app` by that digest, for a client that takes plain manifests only. -/
def legacyRequest : Prog Stores (Except Fault Reply) :=
  serveRequest (fun _ => vaultHex) (fun _ => some (.object [])) listUpstream (fun _ _ _ _ => .ok none)
    ⟨600, 0⟩ (fun _ => ⟨0, 0, 0, 0⟩) vaultAndHub (str "hub/app") (.digest sha512Digest) false
    (some dockerManifestType)

theorem sha512_list_panics :
    ¬ (∀ (s t : Stores) (answer : Except Fault Reply), Obeys tagLaw s.rows →
      Prog.Among Undeleted legacyRequest s answer t → answer ≠ .error .panicked) := by
  intro hnever
  have hrun : (legacyRequest.run {}).1 = .error .panicked := by decide +kernel
  exact hnever {} _ _ obeys_empty (Prog.among_run undeleted_refl legacyRequest {}) hrun

theorem sha512_list_unkept :
    (legacyRequest.run {}).1 ≠ .error .panicked ↔
      ¬ Unkept (fun _ => vaultHex) listUpstream vaultAndHub (str "hub/app") (.digest sha512Digest)
        (some dockerManifestType) {} :=
  negotiation_panics_iff (fun _ => vaultHex) (fun _ => some (.object [])) listUpstream
    (fun _ _ _ _ => .ok none) ⟨600, 0⟩ (fun _ => ⟨0, 0, 0, 0⟩) false vaultAndHub (str "hub/app")
    (.digest sha512Digest) (some dockerManifestType) {} _ _ (fun _ => by decide)
    (fun _ _ _ _ response h => by cases h; decide)
    ⟨str "sha512", str "ab", by decide, by decide, Str.forall_of_all (by decide), by decide,
      Str.forall_of_all (by decide)⟩ obeys_empty
    (Prog.among_run undeleted_refl legacyRequest {})

end Peryx.Oci
