import NodedbLite.ByteString
import NodedbLite.Wildcard

/-! Glob matching of keys. The matcher walks pattern and input with two indices and remembers where
the last star was met; on a mismatch it goes back there and lets the star stand for one byte more. -/
namespace NodedbLite.Kv

open Wildcard

/-- `*` and `?`. -/
def glob : Wildcards UInt8 where
  star := 42
  any := 63
  star_ne_any := by decide

/-- The variables of the loop. The source marks "no star yet" with an index no pattern can have. -/
structure GlobState where
  pi : Nat
  ii : Nat
  /-- `star_pi` and `star_ii`. -/
  star : Option (Nat × Nat)

section Matcher

variable (pat inp : Bytes)

/-- One iteration: the next state, or none if the input is rejected. -/
def globStep (s : GlobState) (byte : UInt8) : Option GlobState :=
  if pat[s.pi]?.any (fun c => c = glob.any ∨ c = byte) then
    some { s with pi := s.pi + 1, ii := s.ii + 1 }
  else if pat[s.pi]? = some glob.star then some ⟨s.pi + 1, s.ii, some (s.pi, s.ii)⟩
  else
    match s.star with
    | some (starPi, starIi) => some ⟨starPi + 1, starIi + 1, some (starPi, starIi + 1)⟩
    | none => none

/-- The loop over the input and the one over trailing stars; none if the fuel runs out. -/
def globLoop : Nat → GlobState → Option Bool
  | 0, _ => none
  | fuel + 1, s =>
    match inp[s.ii]? with
    | some byte =>
      match globStep pat s byte with
      | some t => globLoop fuel t
      | none => some false
    | none =>
      some (s.pi + ((pat.drop s.pi).takeWhile (· = glob.star)).length = pat.length)

/-- Iterations that are enough for any pattern and input of these lengths. -/
def globFuel : Nat := (pat.length * (inp.length + 1) + inp.length) * (inp.length + 1) + inp.length + 1

def globRun : Option Bool := globLoop pat inp (globFuel pat inp) ⟨0, 0, none⟩

end Matcher

/-- The matcher of the key-value reads. -/
def Reads.globMatches (pattern input : Bytes) : Option Bool := globRun pattern input

/-- The matcher of the shape subscriptions over the keys of a collection. -/
def Shapes.globMatches (pattern input : Bytes) : Option Bool := globRun pattern input

section Steps

variable {pat inp : Bytes} {s t : GlobState} {byte : UInt8}

/-- The pattern has no way to go on at this byte. -/
def Stuck (pat : Bytes) (pi : Nat) (byte : UInt8) : Prop :=
  ∀ c, pat[pi]? = some c → ¬Accepts glob c byte ∧ c ≠ glob.star

/-- What an iteration can do. -/
inductive GlobMoves (pat : Bytes) (s : GlobState) (byte : UInt8) : Option GlobState → Prop
  | both (c : UInt8) : pat[s.pi]? = some c → Accepts glob c byte →
      GlobMoves pat s byte (some { s with pi := s.pi + 1, ii := s.ii + 1 })
  | meet : pat[s.pi]? = some glob.star → byte ≠ glob.star →
      GlobMoves pat s byte (some ⟨s.pi + 1, s.ii, some (s.pi, s.ii)⟩)
  | back (starPi starIi : Nat) : Stuck pat s.pi byte → s.star = some (starPi, starIi) →
      GlobMoves pat s byte (some ⟨starPi + 1, starIi + 1, some (starPi, starIi + 1)⟩)
  | reject : Stuck pat s.pi byte → s.star = none → GlobMoves pat s byte none

lemma globStep_moves (pat : Bytes) (s : GlobState) (byte : UInt8) :
    GlobMoves pat s byte (globStep pat s byte) := by
  rw [globStep]
  by_cases hone : pat[s.pi]?.any (fun c => c = glob.any ∨ c = byte) = true
  · rw [if_pos hone]
    cases hc : pat[s.pi]? with
    | none => simp [hc] at hone
    | some c =>
      rw [hc] at hone
      exact .both c hc (of_decide_eq_true hone)
  rw [if_neg hone]
  have hnone : ∀ c, pat[s.pi]? = some c → ¬Accepts glob c byte := by
    intro c hc haccepts
    rw [hc] at hone
    exact hone (decide_eq_true haccepts)
  by_cases hstar : pat[s.pi]? = some glob.star
  · rw [if_pos hstar]
    exact .meet hstar fun hbyte => hnone _ hstar (.inr hbyte.symm)
  rw [if_neg hstar]
  have hstuck : Stuck pat s.pi byte := by
    intro c hc
    refine ⟨hnone c hc, ?_⟩
    rintro rfl
    exact hstar hc
  cases hs : s.star with
  | none => exact .reject hstuck hs
  | some at_ => exact .back at_.1 at_.2 hstuck hs

lemma not_forced_of_stuck (h : Stuck pat s.pi byte) {rest : Bytes} :
    ¬Forced glob (pat.drop s.pi) (byte :: rest) := by
  cases hdrop : pat.drop s.pi with
  | nil => exact not_forced_nil
  | cons c p =>
    have hc : pat[s.pi]? = some c := by
      rw [← List.head?_drop, hdrop]
      rfl
    exact not_forced_cons (h c hc).1 (h c hc).2

lemma drop_eq_cons {l : Bytes} {i : Nat} {b : UInt8} (h : l[i]? = some b) :
    l.drop i = b :: l.drop (i + 1) := by
  obtain ⟨hi, rfl⟩ := List.getElem?_eq_some_iff.mp h
  exact List.drop_eq_getElem_cons hi

end Steps

section Loop

variable {pat inp : Bytes} {s t : GlobState} {byte : UInt8}

/-- What is still open in a state decides the input, and since the last star pattern and input were
walked in step. -/
structure GlobOk (pat inp : Bytes) (s : GlobState) : Prop where
  decides : Forced glob pat inp ↔ Forced glob (pat.drop s.pi) (inp.drop s.ii) ∨
    ∃ starPi starIi k, s.star = some (starPi, starIi) ∧ 0 < k ∧
      Forced glob (pat.drop (starPi + 1)) ((inp.drop starIi).drop k)
  walked : ∀ starPi starIi, s.star = some (starPi, starIi) → starPi < s.pi ∧ starIi ≤ s.ii ∧
    Lockstep glob (pat.drop (starPi + 1)) (inp.drop starIi) (pat.drop s.pi) (inp.drop s.ii)

lemma globOk_init (pat inp : Bytes) : GlobOk pat inp ⟨0, 0, none⟩ where
  decides := by simp
  walked := by simp

/-- Once a match may still begin here or later, the longer ways of the last star add nothing. -/
lemma GlobOk.forced_of_drops (h : GlobOk pat inp s)
    (hlater : ∀ j, 0 < j → Forced glob (pat.drop s.pi) ((inp.drop s.ii).drop j) →
      Forced glob (pat.drop s.pi) (inp.drop s.ii)) :
    Forced glob pat inp ↔ Forced glob (pat.drop s.pi) (inp.drop s.ii) := by
  rw [h.decides]
  constructor
  · rintro (hhere | ⟨starPi, starIi, k, hstar, hk, hf⟩)
    · exact hhere
    · obtain ⟨-, -, hwalk⟩ := h.walked starPi starIi hstar
      rcases hwalk.forced_of_drop hk hf with hhere | ⟨j, hj, hf'⟩
      · exact hhere
      · exact hlater j hj hf'
  · exact .inl

lemma GlobOk.step (h : GlobOk pat inp s) (hbyte : inp[s.ii]? = some byte)
    (hstep : GlobMoves pat s byte (some t)) : GlobOk pat inp t := by
  have hinp := drop_eq_cons hbyte
  cases hstep with
  | both c hc haccepts =>
    have hpat := drop_eq_cons hc
    constructor
    · rw [h.decides, hpat, hinp, forced_cons_iff haccepts]
    · intro starPi starIi hstar
      obtain ⟨hpi, hii, hwalk⟩ := h.walked starPi starIi hstar
      rw [hpat, hinp] at hwalk
      exact ⟨Nat.lt_succ_of_lt hpi, Nat.le_succ_of_le hii, hwalk.snoc haccepts⟩
  | meet hc hne =>
    have hpat := drop_eq_cons hc
    constructor
    · rw [h.forced_of_drops]
      · rw [hpat, hinp, forced_star_iff hne, ← hinp]
        constructor
        · rintro ⟨k, hf⟩
          rcases Nat.eq_zero_or_pos k with rfl | hk
          · exact .inl hf
          · exact .inr ⟨s.pi, s.ii, k, rfl, hk, hf⟩
        · rintro (hf | ⟨starPi, starIi, k, hstar, -, hf⟩)
          · exact ⟨0, hf⟩
          · obtain ⟨rfl, rfl⟩ := Prod.mk.inj (Option.some.inj hstar)
            exact ⟨k, hf⟩
      · -- The star met now can stand for what a later match would leave out.
        intro j _ hf
        rw [hpat, hinp] at hf ⊢
        exact forced_star_of_drop hne hf
    · intro starPi starIi hstar
      obtain ⟨rfl, rfl⟩ := Prod.mk.inj (Option.some.inj hstar)
      exact ⟨Nat.lt_succ_self _, le_rfl, .refl⟩
  | back starPi starIi hstuck hstar =>
    have hshift (k : Nat) : (inp.drop starIi).drop (k + 1) = (inp.drop (starIi + 1)).drop k := by
      rw [List.drop_drop, List.drop_drop, Nat.add_assoc, Nat.add_comm 1]
    constructor
    · rw [h.decides, hinp, or_iff_right (not_forced_of_stuck hstuck)]
      constructor
      · rintro ⟨starPi', starIi', k, hstar', hk, hf⟩
        obtain ⟨rfl, rfl⟩ := Prod.mk.inj (Option.some.inj (hstar.symm.trans hstar'))
        obtain ⟨k, rfl⟩ := Nat.exists_eq_add_one.mpr hk
        rw [hshift] at hf
        rcases Nat.eq_zero_or_pos k with rfl | hk
        · exact .inl hf
        · exact .inr ⟨starPi, starIi + 1, k, rfl, hk, hf⟩
      · rintro (hf | ⟨starPi', starIi', k, hstar', hk, hf⟩)
        · refine ⟨starPi, starIi, 0 + 1, hstar, Nat.one_pos, ?_⟩
          rw [hshift]
          exact hf
        · obtain ⟨rfl, rfl⟩ := Prod.mk.inj (Option.some.inj hstar')
          refine ⟨starPi, starIi, k + 1, hstar, Nat.succ_pos k, ?_⟩
          rw [hshift]
          exact hf
    · intro starPi' starIi' hstar'
      obtain ⟨rfl, rfl⟩ := Prod.mk.inj (Option.some.inj hstar')
      exact ⟨Nat.lt_succ_self _, le_rfl, .refl⟩

lemma GlobOk.not_forced (h : GlobOk pat inp s) (hbyte : inp[s.ii]? = some byte)
    (hstep : GlobMoves pat s byte none) : ¬Forced glob pat inp := by
  cases hstep with
  | reject hstuck hstar =>
    rw [h.decides, drop_eq_cons hbyte]
    rintro (hf | ⟨starPi, starIi, k, hstar', -, -⟩)
    · exact not_forced_of_stuck hstuck hf
    · rw [hstar] at hstar'
      cases hstar'

/-- What decreases: the pattern behind the last star, then the input behind the place it stands for,
then the input left. -/
def rank (pat inp : Bytes) (s : GlobState) : Nat :=
  ((pat.length - s.star.elim 0 (fun star => star.1 + 1)) * (inp.length + 1) +
    (inp.length - s.star.elim 0 Prod.snd)) * (inp.length + 1) + (inp.length - s.ii)

lemma scale_lt {a b c d n : Nat} (hab : a < b) (hc : c ≤ n) :
    a * (n + 1) + c < b * (n + 1) + d := by
  have hmul : (a + 1) * (n + 1) ≤ b * (n + 1) := Nat.mul_le_mul_right _ hab
  rw [Nat.succ_mul] at hmul
  omega

lemma GlobOk.rank_lt (h : GlobOk pat inp s) (hbyte : inp[s.ii]? = some byte)
    (hstep : GlobMoves pat s byte (some t)) : rank pat inp t < rank pat inp s := by
  obtain ⟨hii, -⟩ := List.getElem?_eq_some_iff.mp hbyte
  cases hstep with
  | both c hc haccepts =>
    simp only [rank]
    omega
  | meet hc hne =>
    obtain ⟨hpi, -⟩ := List.getElem?_eq_some_iff.mp hc
    have hstar : s.star.elim 0 (fun star => star.1 + 1) ≤ s.pi := by
      cases hs : s.star with
      | none => exact Nat.zero_le _
      | some star => exact (h.walked star.1 star.2 hs).1
    simp only [rank, Option.elim_some]
    exact scale_lt (scale_lt (by omega) (Nat.sub_le _ _)) (Nat.sub_le _ _)
  | back starPi starIi hstuck hstar =>
    obtain ⟨-, hle, -⟩ := h.walked starPi starIi hstar
    simp only [rank, hstar, Option.elim_some]
    exact scale_lt (by omega) (Nat.sub_le _ _)

lemma length_takeWhile_eq_iff (l : Bytes) :
    (l.takeWhile (· = glob.star)).length = l.length ↔ ∀ c ∈ l, c = glob.star := by
  induction l with
  | nil => simp
  | cons c l ih =>
    by_cases hc : c = glob.star
    · simp [hc, ih]
    · simp [hc]

/-- With enough fuel the loop ends, and decides the strict language. -/
lemma globLoop_eq (h : GlobOk pat inp s) (hpi : s.pi ≤ pat.length) {fuel : Nat}
    (hfuel : rank pat inp s < fuel) :
    ∃ b, globLoop pat inp fuel s = some b ∧ (b = true ↔ Forced glob pat inp) := by
  induction fuel generalizing s with
  | zero => exact absurd hfuel (Nat.not_lt_zero _)
  | succ fuel ih =>
    rw [globLoop]
    cases hbyte : inp[s.ii]? with
    | some byte =>
      have hmoves := globStep_moves pat s byte
      dsimp only
      cases hstep : globStep pat s byte with
      | none =>
        rw [hstep] at hmoves
        exact ⟨false, rfl, iff_of_false Bool.false_ne_true (h.not_forced hbyte hmoves)⟩
      | some t =>
        rw [hstep] at hmoves
        have hlt := h.rank_lt hbyte hmoves
        refine ih (h.step hbyte hmoves) ?_ (by omega)
        cases hmoves with
        | both c hc _ => exact (List.getElem?_eq_some_iff.mp hc).1
        | meet hc _ => exact (List.getElem?_eq_some_iff.mp hc).1
        | back starPi starIi _ hstar => exact (h.walked starPi starIi hstar).1.trans_le hpi
    | none =>
      refine ⟨_, rfl, ?_⟩
      have hend : inp.drop s.ii = [] :=
        List.drop_eq_nil_of_le (List.getElem?_eq_none_iff.mp hbyte)
      have hlater : Forced glob pat inp ↔ Forced glob (pat.drop s.pi) [] := by
        rw [h.forced_of_drops, hend]
        intro j _ hf
        rw [hend, List.drop_nil] at hf
        rw [hend]
        exact hf
      have hlength := List.length_drop (i := s.pi) (l := pat)
      rw [hlater, forced_nil_iff, ← length_takeWhile_eq_iff, hlength, decide_eq_true_eq]
      omega

theorem globRun_eq (pat inp : Bytes) :
    ∃ b, globRun pat inp = some b ∧ (b = true ↔ Forced glob pat inp) := by
  refine globLoop_eq (globOk_init pat inp) (Nat.zero_le _) ?_
  simp [rank, globFuel]

end Loop

section Language

variable {pattern input : Bytes}

/-- Both matchers end, agree, and accept the inputs that the pattern describes. -/
def DecidesLanguage (pattern input : Bytes) : Prop :=
  ∃ b, Reads.globMatches pattern input = some b ∧ Shapes.globMatches pattern input = some b ∧
    (b = true ↔ Matches glob pattern input)

lemma decidesLanguage_iff_forced : DecidesLanguage pattern input ↔
    (Matches glob pattern input → Forced glob pattern input) := by
  obtain ⟨b, hrun, hb⟩ := globRun_eq pattern input
  constructor
  · rintro ⟨b', hreads, -, hb'⟩ hmatches
    obtain rfl := Option.some.inj (hrun.symm.trans hreads)
    exact hb.mp (hb'.mpr hmatches)
  · exact fun h => ⟨b, hrun, hrun, hb.trans ⟨Forced.matches, h⟩⟩

lemma decides_every_input_iff (pattern : Bytes) :
    (∀ input, DecidesLanguage pattern input) ↔ glob.star ∉ pattern := by
  simp only [decidesLanguage_iff_forced]
  constructor
  · intro h hstar
    obtain ⟨input, hmatches, hforced⟩ := exists_input_not_forced hstar
    exact hforced (h input hmatches)
  · exact fun hstar input hmatches => hmatches.forced_of_pattern hstar

lemma decides_every_pattern_iff (input : Bytes) :
    (∀ pattern, DecidesLanguage pattern input) ↔ glob.star ∉ input := by
  simp only [decidesLanguage_iff_forced]
  constructor
  · intro h hstar
    obtain ⟨pattern, hmatches, hforced⟩ := exists_pattern_not_forced hstar
    exact hforced (h pattern hmatches)
  · exact fun hstar pattern hmatches => hmatches.forced_of_input hstar

/-- Both matchers always end, agree and accept nothing that the pattern does not describe. They
decide its language where pattern or input has no star; for every pattern with a star there is an
input, and for every input with a star a pattern, on which they do not. -/
theorem glob_decides_language_iff (pattern input : Bytes) :
    (∃ b, Reads.globMatches pattern input = some b ∧ Shapes.globMatches pattern input = some b ∧
      (b = true → Matches glob pattern input)) ∧
    ((∀ other, DecidesLanguage pattern other) ↔ glob.star ∉ pattern) ∧
    ((∀ other, DecidesLanguage other input) ↔ glob.star ∉ input) := by
  refine ⟨?_, decides_every_input_iff pattern, decides_every_pattern_iff input⟩
  obtain ⟨b, hrun, hb⟩ := globRun_eq pattern input
  exact ⟨b, hrun, hrun, fun h => (hb.mp h).matches⟩

/-- The star of `*a` takes the star of `*ba` as a letter and is then not tried again. -/
theorem star_taken_as_letter :
    ¬DecidesLanguage (Bytes.ofString "*a") (Bytes.ofString "*ba") := by
  rintro ⟨b, hreads, -, hb⟩
  have hfalse : Reads.globMatches (Bytes.ofString "*a") (Bytes.ofString "*ba") = some false := by
    decide +kernel
  obtain rfl := Option.some.inj (hfalse.symm.trans hreads)
  exact Bool.false_ne_true (hb.mpr (Matches.star [42, 98] (.letter (by decide) (by decide) .nil)))

end Language

end NodedbLite.Kv
