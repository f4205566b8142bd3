import Peryx.Core.Scalars
import Peryx.Identity.Acl

/-!
# The language of a glob (peryx-identity/src/acl.rs:269-345)

On strings the three matchers of `Glob` follow one language: `*` stands for any run
of scalar values and every other scalar value for itself.
-/

namespace Peryx.Acl

theorem matches_str_iff (pattern subject : String) :
    (Glob.mk (str pattern)).matches (str subject) = true ↔
      Wildcard.Denotes '*' pattern.toList subject.toList := by
  rw [Glob.matches_iff]
  exact Str.denotes_str pattern subject

theorem matches_str_split (pattern start rest : String) :
    (Glob.mk (str pattern)).matches (str (start ++ rest)) = true ↔
      ∃ remainder ∈ (Glob.mk (str pattern)).remaindersAfter (str start),
        (Glob.mk remainder).matches (str rest) = true := by
  simp only [Glob.matches_iff, Str.str_append]
  exact (Wildcard.remaindersAfter_iff star (str pattern) (str start) (str rest)).symm

theorem matchesPrefix_str_iff (pattern start : String) :
    (Glob.mk (str pattern)).matchesPrefix (str start) = true ↔
      ∃ rest : String, (Glob.mk (str pattern)).matches (str (start ++ rest)) = true := by
  constructor
  · intro h
    obtain ⟨bytes, hbytes⟩ := (Wildcard.acceptsPrefix_iff star (str pattern) (str start)).mp h
    obtain ⟨remainder, hremainder, _⟩ :=
      (Wildcard.remaindersAfter_iff star (str pattern) (str start) bytes).mpr hbytes
    obtain ⟨later, _, hlater⟩ := Str.remainder_encoded pattern start remainder hremainder
    obtain ⟨scalars, hscalars⟩ := Wildcard.exists_denotes '*' later
    refine ⟨String.ofList scalars, (matches_str_split pattern start _).mpr
      ⟨remainder, hremainder, ?_⟩⟩
    rw [hlater, matches_str_iff, String.toList_ofList, String.toList_ofList]
    exact hscalars
  · rintro ⟨rest, hrest⟩
    rw [Glob.matches_iff, Str.str_append] at hrest
    exact (Wildcard.acceptsPrefix_iff star (str pattern) (str start)).mpr ⟨str rest, hrest⟩

theorem glob_language (pattern subject : String) :
    -- the walk ends, and its answer is the language's
    (∃ rounds, Wildcard.walk star rounds (str pattern) (str subject) none =
      some ((Glob.mk (str pattern)).matches (str subject))) ∧
    ((Glob.mk (str pattern)).matches (str subject) = true ↔
      Wildcard.Denotes '*' pattern.toList subject.toList) ∧
    -- every split of the subject
    (∀ start rest : String, subject = start ++ rest →
      ((Glob.mk (str pattern)).matches (str subject) = true ↔
        ∃ remainder ∈ (Glob.mk (str pattern)).remaindersAfter (str start),
          (Glob.mk remainder).matches (str rest) = true)) ∧
    -- the subject as a prefix
    ((Glob.mk (str pattern)).matchesPrefix (str subject) = true ↔
      ∃ rest : String, (Glob.mk (str pattern)).matches (str (subject ++ rest)) = true) ∧
    -- a remainder is the pattern from one of its scalar values on
    (∀ remainder ∈ (Glob.mk (str pattern)).remaindersAfter (str subject),
      ∃ later, later <:+ pattern.toList ∧ remainder = str (String.ofList later)) := by
  refine ⟨?_, matches_str_iff pattern subject, ?_, matchesPrefix_str_iff pattern subject,
    fun remainder hremainder => Str.remainder_encoded pattern subject remainder hremainder⟩
  · obtain ⟨answer, hanswer, _⟩ := Wildcard.walk_rounds star (str pattern) (str subject)
    refine ⟨_, hanswer.trans ?_⟩
    rw [Glob.matches, Wildcard.accepts, hanswer, Option.getD_some]
  · intro start rest hsplit
    rw [hsplit]
    exact matches_str_split pattern start rest

end Peryx.Acl
