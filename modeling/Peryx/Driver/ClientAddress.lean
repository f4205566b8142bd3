import Peryx.Core.IpAddr

/-! # The client address behind proxies (peryx-driver/src/rate_limit.rs:176-183, 510-573) -/

namespace Peryx.Driver

/-- `RateLimitConfig`, as far as it names proxies. `contains` is that of the networks' type. -/
structure ProxyTrust (N : Type) where
  trustedProxies : List N
  contains : N → IpAddr → Bool

structure Forwarding where
  forwardedFor : List Str
  realIp : List Str

def toStr (value : Str) : Option Str :=
  if value.all fun byte => (0x20 ≤ byte && byte < 0x7F) || byte == 0x09 then some value else none

def namedAddress (value : Str) : Option IpAddr :=
  (toStr value).bind fun text => (IpAddr.parse (Str.trimAscii text)).map IpAddr.toCanonical

namespace ProxyTrust
variable {N : Type} (trust : ProxyTrust N)

def trustsProxy (address : IpAddr) : Bool :=
  let address := address.toCanonical
  trust.trustedProxies.any fun network => trust.contains network address

def forwardedPart (walk : Option IpAddr × Bool) (part : Str) : Option IpAddr × Bool :=
  match (IpAddr.parse (Str.trimAscii part)).map IpAddr.toCanonical with
  | none => (none, true)
  | some address => if trust.trustsProxy address then walk else (some address, false)

def forwardedLine (walk : Option IpAddr × Bool) (value : Str) : Option IpAddr × Bool :=
  match toStr value with
  | none => (none, true)
  | some text => (Str.split 0x2C text).foldl trust.forwardedPart walk

def forwardedClientIp (headers : Forwarding) : Option IpAddr :=
  if headers.forwardedFor = [] then
    match headers.realIp with
    | [value] => namedAddress value
    | _ => none
  else
    let (client, suffixMalformed) := headers.forwardedFor.foldl trust.forwardedLine (none, false)
    if suffixMalformed then none else client

def clientIp (peer : Option IpAddr) (headers : Forwarding) : Option IpAddr :=
  peer.map fun peer =>
    let peer := peer.toCanonical
    if trust.trustsProxy peer then (trust.forwardedClientIp headers).getD peer else peer

def chain (lines : List Str) : List Str := lines.flatMap (Str.split 0x2C)

def Decides (hop : Str) : Bool := (namedAddress hop).all fun address => !trust.trustsProxy address

/-- The nearest deciding hop and what lies right of it, or the whole chain. -/
def suffix : List Str → List Str
  | [] => []
  | hop :: hops => if hops.any trust.Decides then suffix hops else hop :: hops

/-- What the suffix alone says, with what the request holds beside its chain. -/
def addressFrom (peer : IpAddr) (realIp : List Str) (hops : List Str) : IpAddr :=
  if trust.trustsProxy peer then
    match hops with
    | [] => (trust.forwardedClientIp ⟨[], realIp⟩).getD peer
    | hop :: _ => ((namedAddress hop).filter fun address => !trust.trustsProxy address).getD peer
  else peer

def nearest (hops : List Str) : Option Str := hops.reverse.find? trust.Decides

def decidingLine (lines : List Str) : Option Str :=
  lines.reverse.find? fun line => (Str.split 0x2C line).any trust.Decides

/-- If the nearest deciding hop is an address, its whole line is text. -/
def Legible (lines : List Str) : Prop :=
  ∀ line hop, trust.decidingLine lines = some line →
    trust.nearest (Str.split 0x2C line) = some hop →
    (namedAddress hop).isSome → (toStr line).isSome

theorem toStr_segment (line hop : Str) (htext : (toStr line).isSome)
    (hhop : hop ∈ Str.split 0x2C line) : toStr hop = some hop := by
  have hline : (line.all fun byte => (0x20 ≤ byte && byte < 0x7F) || byte == 0x09) = true := by
    by_contra hnot
    rw [toStr, if_neg hnot] at htext
    cases htext
  rw [toStr, if_pos]
  rw [List.all_eq_true] at hline ⊢
  exact fun byte hbyte => hline byte (Str.mem_of_mem_split 0x2C line hop hhop byte hbyte)

def verdict (hop : Str) : Option IpAddr × Bool :=
  match namedAddress hop with
  | none => (none, true)
  | some address => (some address, false)

theorem forwardedPart_eq (walk : Option IpAddr × Bool) (hop : Str) (h : toStr hop = some hop) :
    trust.forwardedPart walk hop = if trust.Decides hop then verdict hop else walk := by
  have hname : namedAddress hop = (IpAddr.parse (Str.trimAscii hop)).map IpAddr.toCanonical := by
    rw [namedAddress, h]
    rfl
  unfold forwardedPart Decides verdict
  rw [← hname]
  cases namedAddress hop with
  | none => rfl
  | some address => cases htrust : trust.trustsProxy address <;> simp [htrust]

theorem nearest_append (before after : List Str) :
    trust.nearest (before ++ after) = (trust.nearest after).or (trust.nearest before) := by
  unfold nearest
  rw [List.reverse_append, List.find?_append]

theorem nearest_eq_none (hops : List Str) :
    trust.nearest hops = none ↔ hops.any trust.Decides = false := by
  unfold nearest
  rw [List.find?_eq_none, List.any_eq_false]
  simp

theorem nearest_decides {hops : List Str} {hop : Str} (h : trust.nearest hops = some hop) :
    hop ∈ hops ∧ trust.Decides hop = true :=
  ⟨List.mem_reverse.mp (List.mem_of_find?_eq_some h), List.find?_some h⟩

theorem foldl_forwardedPart (walk : Option IpAddr × Bool) (hops : List Str)
    (h : ∀ hop ∈ hops, toStr hop = some hop) :
    hops.foldl trust.forwardedPart walk = ((trust.nearest hops).map verdict).getD walk := by
  induction hops generalizing walk with
  | nil => rfl
  | cons hop hops ih =>
    have hstep := trust.forwardedPart_eq walk hop (h hop List.mem_cons_self)
    rw [List.foldl_cons, ih _ fun later hlater => h later (List.mem_cons_of_mem hop hlater), hstep]
    have hsplit := trust.nearest_append [hop] hops
    rw [List.singleton_append] at hsplit
    rw [hsplit]
    cases trust.nearest hops with
    | some later => rfl
    | none => cases hdecides : trust.Decides hop <;> simp [nearest, hdecides]

theorem forwardedLine_text (walk : Option IpAddr × Bool) (line : Str) (h : (toStr line).isSome) :
    trust.forwardedLine walk line =
      ((trust.nearest (Str.split 0x2C line)).map verdict).getD walk := by
  have hline : toStr line = some line := by
    unfold toStr at h ⊢
    split at h
    · rename_i hall
      rw [if_pos hall]
    · cases h
  unfold forwardedLine
  rw [hline]
  exact trust.foldl_forwardedPart walk _ fun hop hhop => toStr_segment line hop h hhop

theorem nearest_of_opaque (line : Str) (h : (toStr line).isSome = false) :
    trust.nearest (Str.split 0x2C line) ≠ none := by
  intro hnone
  rw [nearest_eq_none, List.any_eq_false] at hnone
  have hbad : ¬ (line.all fun byte => (0x20 ≤ byte && byte < 0x7F) || byte == 0x09) = true := by
    intro hall
    rw [toStr, if_pos hall] at h
    cases h
  rw [Bool.not_eq_true, List.all_eq_false] at hbad
  obtain ⟨byte, hbyte, hopaque⟩ := hbad
  rcases Str.mem_of_split 0x2C byte line hbyte with rfl | ⟨hop, hhop, hmem⟩
  · exact absurd hopaque (by decide)
  · have hname : namedAddress hop = none := by
      have hhopaque : toStr hop = none := by
        rw [toStr, if_neg]
        intro hall
        rw [List.all_eq_true] at hall
        exact hopaque (hall byte hmem)
      rw [namedAddress, hhopaque]
      rfl
    refine hnone hop hhop ?_
    rw [Decides, hname]
    rfl

def walked (lines : List Str) : Option IpAddr × Bool :=
  lines.foldl trust.forwardedLine (none, false)

theorem walked_append (lines : List Str) (line : Str) :
    trust.walked (lines ++ [line]) = trust.forwardedLine (trust.walked lines) line := by
  unfold walked
  rw [List.foldl_append]
  rfl

theorem chain_append (lines : List Str) (line : Str) :
    chain (lines ++ [line]) = chain lines ++ Str.split 0x2C line := by
  unfold chain
  rw [List.flatMap_append]
  simp

theorem decidingLine_append (lines : List Str) (line : Str) :
    trust.decidingLine (lines ++ [line]) =
      if (Str.split 0x2C line).any trust.Decides then some line else trust.decidingLine lines := by
  unfold decidingLine
  rw [List.reverse_append, List.reverse_singleton, List.singleton_append, List.find?_cons]
  cases (Str.split 0x2C line).any trust.Decides <;> rfl

theorem legible_append (lines : List Str) (line : Str)
    (h : trust.nearest (Str.split 0x2C line) = none) :
    trust.Legible (lines ++ [line]) ↔ trust.Legible lines := by
  have hline := trust.decidingLine_append lines line
  rw [(trust.nearest_eq_none _).mp h] at hline
  unfold Legible
  rw [hline]
  rfl

theorem legible_last (lines : List Str) (line hop : Str)
    (h : trust.nearest (Str.split 0x2C line) = some hop) :
    trust.Legible (lines ++ [line]) ↔ ((namedAddress hop).isSome → (toStr line).isSome) := by
  have hany : (Str.split 0x2C line).any trust.Decides = true := by
    obtain ⟨hmem, hdecides⟩ := trust.nearest_decides h
    exact List.any_eq_true.mpr ⟨hop, hmem, hdecides⟩
  have hline := trust.decidingLine_append lines line
  rw [if_pos hany] at hline
  unfold Legible
  rw [hline]
  constructor
  · exact fun hall => hall line hop rfl h
  · intro htext found other hfound hother
    cases hfound
    rw [h] at hother
    cases hother
    exact htext

theorem text_of_undecided (line : Str) (h : trust.nearest (Str.split 0x2C line) = none) :
    (toStr line).isSome := by
  by_contra hopaque
  exact trust.nearest_of_opaque line (by simpa using hopaque) h

theorem walked_legible (lines : List Str) (h : trust.Legible lines) :
    trust.walked lines = ((trust.nearest (chain lines)).map verdict).getD (none, false) := by
  induction lines using List.reverseRecOn with
  | nil => rfl
  | append_singleton lines line ih =>
    rw [walked_append, chain_append, nearest_append]
    cases hnear : trust.nearest (Str.split 0x2C line) with
    | none =>
      rw [trust.forwardedLine_text _ line (trust.text_of_undecided line hnear), hnear]
      exact ih ((trust.legible_append lines line hnear).mp h)
    | some hop =>
      have hlegible := (trust.legible_last lines line hop hnear).mp h
      cases htext : (toStr line).isSome with
      | true =>
        rw [trust.forwardedLine_text _ line htext, hnear]
        rfl
      | false =>
        have hname : namedAddress hop = none := by
          by_contra hsome
          rw [hlegible (Option.isSome_iff_ne_none.mpr hsome)] at htext
          cases htext
        have hline : toStr line = none := by simpa using htext
        unfold forwardedLine
        rw [hline]
        show _ = verdict hop
        rw [verdict, hname]

theorem walked_illegible (lines : List Str) (h : ¬ trust.Legible lines) :
    trust.walked lines = (none, true) ∧
      ∃ hop, trust.nearest (chain lines) = some hop ∧ (namedAddress hop).isSome := by
  induction lines using List.reverseRecOn with
  | nil => exact absurd (fun _ _ hline => nomatch hline) h
  | append_singleton lines line ih =>
    rw [walked_append, chain_append, nearest_append]
    cases hnear : trust.nearest (Str.split 0x2C line) with
    | none =>
      rw [trust.forwardedLine_text _ line (trust.text_of_undecided line hnear), hnear]
      exact ih fun hlegible => h ((trust.legible_append lines line hnear).mpr hlegible)
    | some hop =>
      rw [trust.legible_last lines line hop hnear, Classical.not_imp] at h
      obtain ⟨hname, hopaque⟩ := h
      have hline : toStr line = none := by simpa using hopaque
      refine ⟨?_, hop, rfl, hname⟩
      unfold forwardedLine
      rw [hline]

theorem suffix_eq_nil (hops : List Str) : trust.suffix hops = [] ↔ hops = [] := by
  induction hops with
  | nil => simp [suffix]
  | cons hop hops ih =>
    unfold suffix
    split
    · rename_i hany
      rw [ih]
      constructor
      · intro hnil
        rw [hnil] at hany
        cases hany
      · exact nofun
    · simp

theorem nearest_eq_suffix (hops : List Str) :
    trust.nearest hops = (trust.suffix hops).head?.filter trust.Decides := by
  induction hops with
  | nil => rfl
  | cons hop hops ih =>
    have hsplit := trust.nearest_append [hop] hops
    rw [List.singleton_append] at hsplit
    rw [hsplit]
    unfold suffix
    cases hany : hops.any trust.Decides with
    | true =>
      rw [if_pos rfl, ← ih]
      cases hnear : trust.nearest hops with
      | none => exact absurd ((trust.nearest_eq_none hops).mp hnear) (by rw [hany]; decide)
      | some later => rfl
    | false =>
      rw [(trust.nearest_eq_none hops).mpr hany]
      rw [if_neg (by simp), List.head?_cons, Option.filter_some]
      cases hdecides : trust.Decides hop <;> simp [nearest, hdecides]

theorem chain_eq_nil (lines : List Str) : chain lines = [] ↔ lines = [] := by
  constructor
  · intro hnil
    cases lines with
    | nil => rfl
    | cons line lines =>
      unfold chain at hnil
      rw [List.flatMap_cons, List.append_eq_nil_iff] at hnil
      exact absurd hnil.1 (List.splitOn_ne_nil _ _)
  · rintro rfl
    rfl

theorem forwardedClientIp_eq (lines realIp : List Str) (h : lines ≠ []) :
    trust.forwardedClientIp ⟨lines, realIp⟩ =
      if (trust.walked lines).2 then none else (trust.walked lines).1 := by
  unfold forwardedClientIp
  rw [if_neg h]
  rfl

theorem addressFrom_cons (peer : IpAddr) (realIp hops : List Str) (hop : Str)
    (hpeer : trust.trustsProxy peer = true) :
    trust.addressFrom peer realIp (hop :: hops) =
      ((namedAddress hop).filter fun address => !trust.trustsProxy address).getD peer := by
  unfold addressFrom
  rw [if_pos hpeer]

theorem verdict_of_nearest (lines : List Str) (hop : Str)
    (h : trust.nearest (chain lines) = some hop) :
    ∃ hops, trust.suffix (chain lines) = hop :: hops ∧
      (namedAddress hop).filter (fun address => !trust.trustsProxy address) = namedAddress hop := by
  rw [nearest_eq_suffix] at h
  obtain ⟨hhead, hdecides⟩ := Option.filter_eq_some_iff.mp h
  cases hsuffix : trust.suffix (chain lines) with
  | nil =>
    rw [hsuffix] at hhead
    cases hhead
  | cons first hops =>
    rw [hsuffix] at hhead
    cases hhead
    refine ⟨hops, rfl, ?_⟩
    unfold Decides at hdecides
    cases hname : namedAddress hop with
    | none => rfl
    | some address =>
      rw [hname] at hdecides
      exact Option.filter_eq_some_iff.mpr ⟨rfl, hdecides⟩

theorem forwarded_legible (peer : IpAddr) (lines realIp : List Str) (hlines : lines ≠ [])
    (hpeer : trust.trustsProxy peer = true) (h : trust.Legible lines) :
    (trust.forwardedClientIp ⟨lines, realIp⟩).getD peer =
      trust.addressFrom peer realIp (trust.suffix (chain lines)) := by
  rw [trust.forwardedClientIp_eq lines realIp hlines, trust.walked_legible lines h]
  cases hnear : trust.nearest (chain lines) with
  | some hop =>
    obtain ⟨hops, hsuffix, hname⟩ := trust.verdict_of_nearest lines hop hnear
    rw [hsuffix, trust.addressFrom_cons peer realIp hops hop hpeer, hname]
    show Option.getD (if (verdict hop).2 then none else (verdict hop).1) peer = _
    unfold verdict
    cases namedAddress hop <;> rfl
  | none =>
    rw [nearest_eq_suffix] at hnear
    cases hsuffix : trust.suffix (chain lines) with
    | nil =>
      rw [suffix_eq_nil, chain_eq_nil] at hsuffix
      exact absurd hsuffix hlines
    | cons hop hops =>
      rw [trust.addressFrom_cons peer realIp hops hop hpeer]
      rw [hsuffix] at hnear
      unfold Decides at hnear
      cases hname : namedAddress hop with
      | none =>
        rw [List.head?_cons, Option.filter_some, hname] at hnear
        cases hnear
      | some address =>
        cases htrust : trust.trustsProxy address with
        | true => simp [Option.filter_some, htrust]
        | false =>
          rw [List.head?_cons, Option.filter_some, hname] at hnear
          simp [htrust] at hnear

theorem forwarded_illegible (peer : IpAddr) (lines realIp : List Str)
    (hpeer : trust.trustsProxy peer = true) (h : ¬ trust.Legible lines) :
    (trust.forwardedClientIp ⟨lines, realIp⟩).getD peer = peer ∧
      trust.addressFrom peer realIp (trust.suffix (chain lines)) ≠ peer := by
  have hlines : lines ≠ [] := by
    rintro rfl
    exact h fun _ _ hline => nomatch hline
  obtain ⟨hwalk, hop, hnear, hsome⟩ := trust.walked_illegible lines h
  obtain ⟨hops, hsuffix, hname⟩ := trust.verdict_of_nearest lines hop hnear
  obtain ⟨address, haddress⟩ := Option.isSome_iff_exists.mp hsome
  constructor
  · rw [trust.forwardedClientIp_eq lines realIp hlines, hwalk]
    rfl
  · rw [hsuffix, trust.addressFrom_cons peer realIp hops hop hpeer, hname, haddress]
    rw [haddress] at hname
    have huntrusted := (Option.filter_eq_some_iff.mp hname).2
    intro heq
    rw [Option.getD_some] at heq
    rw [heq, hpeer] at huntrusted
    cases huntrusted

theorem clientIp_eq (peer : IpAddr) (headers : Forwarding) :
    trust.clientIp (some peer) headers =
      some (if trust.trustsProxy peer.toCanonical then
        (trust.forwardedClientIp headers).getD peer.toCanonical else peer.toCanonical) :=
  rfl

theorem clientIp_legible (peer : IpAddr) (lines realIp : List Str)
    (h : trust.trustsProxy peer.toCanonical = true → trust.Legible lines) :
    trust.clientIp (some peer) ⟨lines, realIp⟩ =
      some (trust.addressFrom peer.toCanonical realIp (trust.suffix (chain lines))) := by
  rw [clientIp_eq]
  cases hpeer : trust.trustsProxy peer.toCanonical with
  | false => simp [addressFrom, hpeer]
  | true =>
    rw [if_pos rfl]
    by_cases hlines : lines = []
    · subst hlines
      simp [addressFrom, hpeer, chain, suffix]
    · rw [trust.forwarded_legible _ lines realIp hlines hpeer (h hpeer)]

/-- The client's address is what the suffix says exactly when the lines are legible; requests
that agree on it then have one address; and no request is given an address left of it. -/
theorem client_address_from_suffix (peer : IpAddr) (realIp : List Str) :
    (∀ lines, trust.clientIp (some peer) ⟨lines, realIp⟩ =
        some (trust.addressFrom peer.toCanonical realIp (trust.suffix (chain lines))) ↔
      (trust.trustsProxy peer.toCanonical = true → trust.Legible lines)) ∧
    (∀ lines others, trust.suffix (chain lines) = trust.suffix (chain others) →
      (trust.trustsProxy peer.toCanonical = true → trust.Legible lines ∧ trust.Legible others) →
      trust.clientIp (some peer) ⟨lines, realIp⟩ = trust.clientIp (some peer) ⟨others, realIp⟩) ∧
    ∀ lines, trust.clientIp (some peer) ⟨lines, realIp⟩ = some peer.toCanonical ∨
      trust.clientIp (some peer) ⟨lines, realIp⟩ =
        some (trust.addressFrom peer.toCanonical realIp (trust.suffix (chain lines))) := by
  have hother : ∀ lines, ¬ (trust.trustsProxy peer.toCanonical = true → trust.Legible lines) →
      trust.clientIp (some peer) ⟨lines, realIp⟩ = some peer.toCanonical ∧
        trust.addressFrom peer.toCanonical realIp (trust.suffix (chain lines)) ≠ peer.toCanonical := by
    intro lines h
    rw [Classical.not_imp] at h
    obtain ⟨hpeer, hlegible⟩ := h
    obtain ⟨haddress, hne⟩ := trust.forwarded_illegible _ lines realIp hpeer hlegible
    rw [clientIp_eq, if_pos hpeer, haddress]
    exact ⟨rfl, hne⟩
  refine ⟨fun lines => ⟨fun heq => ?_, trust.clientIp_legible peer lines realIp⟩, ?_, fun lines => ?_⟩
  · by_contra h
    obtain ⟨haddress, hne⟩ := hother lines h
    rw [haddress] at heq
    exact hne (Option.some.inj heq).symm
  · intro lines others hsuffix h
    rw [trust.clientIp_legible peer lines realIp fun hpeer => (h hpeer).1,
      trust.clientIp_legible peer others realIp fun hpeer => (h hpeer).2, hsuffix]
  · by_cases h : trust.trustsProxy peer.toCanonical = true → trust.Legible lines
    · exact .inr (trust.clientIp_legible peer lines realIp h)
    · exact .inl (hother lines h).1

end ProxyTrust

namespace OneProxy

def proxy : IpAddr := .v4 198 51 100 10

def trust : ProxyTrust IpAddr := ⟨[proxy], fun network address => network == address⟩

/-- What the client sent, and the address that the proxy has added. -/
def line (sent : Str) : Str := sent ++ str ", 203.0.113.5"

end OneProxy

open OneProxy in
/-- An address to the left changes nothing; a byte that is not text does. -/
theorem opaque_byte_hides_client :
    trust.suffix (ProxyTrust.chain [line [0xFF]]) =
      trust.suffix (ProxyTrust.chain [line (str "192.0.2.1")]) ∧
    trust.clientIp (some proxy) ⟨[line (str "192.0.2.1")], []⟩ = some (.v4 203 0 113 5) ∧
    trust.clientIp (some proxy) ⟨[line [0xFF]], []⟩ = some proxy := by
  decide +kernel

open OneProxy in
theorem two_clients_agree :
    trust.clientIp (some proxy) ⟨[line (str "192.0.2.1")], []⟩ =
      trust.clientIp (some proxy) ⟨[line (str "192.0.2.2")], []⟩ := by
  refine (trust.client_address_from_suffix proxy []).2.1 _ _ (by decide +kernel) fun _ => ?_
  constructor
  · rintro found hop hfound - -
    have hline : found = line (str "192.0.2.1") :=
      List.mem_singleton.mp (List.mem_reverse.mp (List.mem_of_find?_eq_some hfound))
    rw [hline]
    decide +kernel
  · rintro found hop hfound - -
    have hline : found = line (str "192.0.2.2") :=
      List.mem_singleton.mp (List.mem_reverse.mp (List.mem_of_find?_eq_some hfound))
    rw [hline]
    decide +kernel

end Peryx.Driver
