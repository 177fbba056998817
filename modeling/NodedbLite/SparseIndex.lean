import NodedbLite.Postings

/-! The inverted index of sparse vectors, and what it stands for: the latest vector of every live
document. Weights are elements of a ring with a linear order. -/
namespace NodedbLite.SparseIndex

variable {R : Type*}

/-- A vector as its weights by dimension, in the order of the dimensions. -/
structure SparseVector (R : Type*) where
  entries : List (Nat × R)
  sorted : entries.Pairwise fun a b => a.1 < b.1

lemma SparseVector.nodup (v : SparseVector R) : (v.entries.map Prod.fst).Nodup := by
  rw [List.Nodup, List.pairwise_map]
  exact v.sorted.imp Nat.ne_of_lt

structure SparseInvertedIndex (R : Type*) where
  postings : Postings.Map Nat Nat R
  docEntries : SortedMap Nat (List (Nat × R))
  docIdForward : SortedMap String Nat
  docIdReverse : SortedMap Nat String
  nextId : Nat

structure SparseHit (R : Type*) where
  docId : String
  score : R
  deriving DecidableEq

namespace SparseInvertedIndex

def u32Max : Nat := 2 ^ 32 - 1

def new : SparseInvertedIndex R := ⟨.empty, .empty, .empty, .empty, 0⟩

def detachPostings (s : SparseInvertedIndex R) (internalId : Nat) : SparseInvertedIndex R :=
  match s.docEntries.get internalId with
  | none => s
  | some entries =>
    { s with postings := (entries.map Prod.fst).foldl (Postings.retain internalId) s.postings }

/-- The postings and the entries of a vector under an internal id. -/
def addVector (s : SparseInvertedIndex R) (internalId : Nat) (vector : SparseVector R) :
    SparseInvertedIndex R :=
  { s with
    postings := vector.entries.foldl (Postings.push internalId) s.postings
    docEntries := s.docEntries.insert internalId vector.entries }

/-- A document that is not there gets the next internal id. -/
def assignId (s : SparseInvertedIndex R) (docId : String) : SparseInvertedIndex R :=
  { s with
    docIdForward := s.docIdForward.insert docId s.nextId
    docIdReverse := s.docIdReverse.insert s.nextId docId
    nextId := min (s.nextId + 1) u32Max }

def insert (s : SparseInvertedIndex R) (docId : String) (vector : SparseVector R) :
    SparseInvertedIndex R :=
  match s.docIdForward.get docId with
  | some existing => (s.detachPostings existing).addVector existing vector
  | none => (s.assignId docId).addVector s.nextId vector

def delete (s : SparseInvertedIndex R) (docId : String) : SparseInvertedIndex R × Bool :=
  match s.docIdForward.get docId with
  | none => (s, false)
  | some internalId =>
    let detached := detachPostings { s with docIdForward := s.docIdForward.erase docId } internalId
    ({ detached with
        docEntries := detached.docEntries.erase internalId
        docIdReverse := detached.docIdReverse.erase internalId }, true)

def documents (s : SparseInvertedIndex R) : List (String × List (Nat × R)) :=
  (s.docIdForward.entries.filterMap fun e =>
    (s.docEntries.get e.2).map fun entries => (e.1, entries)).mergeSort fun a b => a.1 ≤ b.1

/-- Rebuild from stored documents; entries that do not make a vector are skipped. -/
def fromDocuments (fromEntries : List (Nat × R) → Option (SparseVector R))
    (documents : List (String × List (Nat × R))) : SparseInvertedIndex R :=
  documents.foldl
    (fun index document =>
      match fromEntries document.2 with
      | some vector => index.insert document.1 vector
      | none => index) new

section Search

variable [Ring R] [LinearOrder R]

/-- A posting of a dimension adds to the score of its id. -/
def accumulate (queryWeight : R) (accumulator : SortedMap Nat R) (posting : Nat × R) :
    SortedMap Nat R :=
  accumulator.insert posting.1 ((accumulator.get posting.1).getD 0 + queryWeight * posting.2)

def scores (s : SparseInvertedIndex R) (query : SparseVector R) : SortedMap Nat R :=
  query.entries.foldl
    (fun accumulator entry =>
      (Postings.list s.postings entry.1).foldl (accumulate entry.2) accumulator) .empty

/-- Higher scores first, and equal scores by document id. -/
def before (a b : SparseHit R) : Bool :=
  b.score < a.score || (a.score = b.score && a.docId ≤ b.docId)

def search (s : SparseInvertedIndex R) (query : SparseVector R) (topK : Nat) :
    List (SparseHit R) :=
  if topK = 0 ∨ query.entries = [] then []
  else
    ((((s.scores query).entries.filter fun e => e.2 ≠ 0).filterMap fun e =>
      (s.docIdReverse.get e.1).map fun docId => ⟨docId, e.2⟩).mergeSort before).take topK

end Search

/-- The index holds these vectors. -/
structure Represents (s : SparseInvertedIndex R) (docs : SortedMap String (SparseVector R)) :
    Prop where
  ids : ∀ d id, s.docIdForward.get d = some id ↔ s.docIdReverse.get id = some d
  live : ∀ d, (s.docIdForward.get d).isSome = (docs.get d).isSome
  entries : ∀ id, s.docEntries.get id =
    (s.docIdReverse.get id).bind fun d => (docs.get d).map SparseVector.entries
  postings : Postings.Of (fun id => s.docEntries.get id) s.postings
  fresh : ∀ id, (s.docIdReverse.get id).isSome → id < s.nextId

lemma represents_new : (new : SparseInvertedIndex R).Represents .empty where
  ids d id := by simp [new]
  live d := rfl
  entries id := rfl
  postings := Postings.of_empty
  fresh id h := by cases h

section Steps

variable {s : SparseInvertedIndex R} {docs : SortedMap String (SparseVector R)}

@[simp] lemma detachPostings_docEntries (id : Nat) :
    (s.detachPostings id).docEntries = s.docEntries := by
  rw [detachPostings]
  split <;> rfl

@[simp] lemma detachPostings_docIdForward (id : Nat) :
    (s.detachPostings id).docIdForward = s.docIdForward := by
  rw [detachPostings]
  split <;> rfl

@[simp] lemma detachPostings_docIdReverse (id : Nat) :
    (s.detachPostings id).docIdReverse = s.docIdReverse := by
  rw [detachPostings]
  split <;> rfl

@[simp] lemma detachPostings_nextId (id : Nat) : (s.detachPostings id).nextId = s.nextId := by
  rw [detachPostings]
  split <;> rfl

lemma of_detachPostings (h : Postings.Of (fun id => s.docEntries.get id) s.postings) (id : Nat) :
    Postings.Of (Function.update (fun id => s.docEntries.get id) id none)
      (s.detachPostings id).postings := by
  rw [detachPostings]
  cases hes : s.docEntries.get id with
  | none =>
    have hsame : Function.update (fun id => s.docEntries.get id) id none =
        fun id => s.docEntries.get id := by
      rw [← hes]
      exact Function.update_eq_self id _
    rw [hsame]
    exact h
  | some es => exact h.detach hes

lemma of_addVector (vector : Nat → Option (List (Nat × R))) {id : Nat}
    (h : Postings.Of (Function.update vector id none) s.postings)
    (hvector : ∀ other ≠ id, vector other = s.docEntries.get other) (v : SparseVector R) :
    Postings.Of (fun other => (s.addVector id v).docEntries.get other)
      (s.addVector id v).postings := by
  have hattach := h.attach (Function.update_self id none vector) v.nodup
  have hsame : Function.update (Function.update vector id none) id (some v.entries) =
      fun other => (s.addVector id v).docEntries.get other := by
    funext other
    rw [Function.update_idem, addVector]
    by_cases hother : other = id
    · subst hother
      rw [Function.update_self, SortedMap.get_insert, if_pos rfl]
    · rw [Function.update_of_ne hother, SortedMap.get_insert, if_neg hother, hvector other hother]
  rw [← hsame]
  exact hattach

lemma Represents.replace (h : s.Represents docs) {d : String} {id : Nat}
    (hid : s.docIdForward.get d = some id) (v : SparseVector R) :
    ((s.detachPostings id).addVector id v).Represents (docs.insert d v) := by
  have hreverse := (h.ids d id).mp hid
  refine ⟨fun e k => ?_, fun e => ?_, fun k => ?_, ?_, fun k hk => ?_⟩
  · simpa [addVector] using h.ids e k
  · have hlive := h.live e
    simp only [addVector, detachPostings_docIdForward, SortedMap.get_insert]
    split_ifs with he
    · rw [he, hid]
      rfl
    · exact hlive
  · simp only [addVector, detachPostings_docEntries, detachPostings_docIdReverse,
      SortedMap.get_insert]
    split_ifs with hk
    · rw [hk, hreverse]
      simp
    · rw [h.entries]
      refine Option.bind_congr fun e he => ?_
      have hne : e ≠ d := by
        rintro rfl
        have := (h.ids e k).mpr he
        rw [hid] at this
        exact hk (Option.some.inj this).symm
      rw [if_neg hne]
  · exact of_addVector _ (of_detachPostings h.postings id) (fun other _ => by simp) v
  · simp only [addVector, detachPostings_docIdReverse, detachPostings_nextId] at hk ⊢
    exact h.fresh k hk

lemma Represents.add (h : s.Represents docs) {d : String} (hd : s.docIdForward.get d = none)
    (hroom : s.nextId < u32Max) (v : SparseVector R) :
    ((s.assignId d).addVector s.nextId v).Represents (docs.insert d v) := by
  have hnext : s.docIdReverse.get s.nextId = none := by
    rw [← Option.not_isSome_iff_eq_none]
    exact fun hsome => Nat.lt_irrefl _ (h.fresh _ hsome)
  refine ⟨fun e k => ?_, fun e => ?_, fun k => ?_, ?_, fun k hk => ?_⟩
  · have hek := h.ids e k
    simp only [addVector, assignId, SortedMap.get_insert]
    split_ifs <;> grind
  · have hlive := h.live e
    simp only [addVector, assignId, SortedMap.get_insert]
    split_ifs with he
    · rfl
    · exact hlive
  · simp only [addVector, assignId, SortedMap.get_insert]
    split_ifs with hk
    · simp
    · rw [h.entries]
      refine Option.bind_congr fun e he => ?_
      have hne : e ≠ d := by
        rintro rfl
        have := (h.ids e k).mpr he
        rw [hd] at this
        cases this
      rw [if_neg hne]
  · have hnone : s.docEntries.get s.nextId = none := by rw [h.entries, hnext, Option.bind_none]
    have hsame : Function.update (fun id => s.docEntries.get id) s.nextId none =
        fun id => s.docEntries.get id := by
      rw [← hnone]
      exact Function.update_eq_self s.nextId _
    refine of_addVector (fun id => s.docEntries.get id) ?_ (fun _ _ => rfl) v
    rw [hsame]
    exact h.postings
  · simp only [addVector, assignId, SortedMap.get_insert] at hk ⊢
    have hmin : min (s.nextId + 1) u32Max = s.nextId + 1 := Nat.min_eq_left hroom
    rw [hmin]
    split_ifs at hk with heq
    · omega
    · exact Nat.lt_succ_of_lt (h.fresh k hk)

lemma Represents.insert (h : s.Represents docs) (d : String) (v : SparseVector R)
    (hroom : s.docIdForward.get d = none → s.nextId < u32Max) :
    (s.insert d v).Represents (docs.insert d v) := by
  rw [SparseInvertedIndex.insert]
  cases hid : s.docIdForward.get d with
  | none => exact h.add hid (hroom hid) v
  | some id => exact h.replace hid v

lemma Represents.delete (h : s.Represents docs) (d : String) :
    (s.delete d).1.Represents (docs.erase d) := by
  rw [SparseInvertedIndex.delete]
  cases hid : s.docIdForward.get d with
  | none =>
    have hnone : docs.get d = none := by
      have hlive := h.live d
      rw [hid] at hlive
      exact Option.isNone_iff_eq_none.mp (by simpa using hlive.symm)
    rw [SortedMap.erase_of_get_eq_none hnone]
    exact h
  | some id =>
    have hreverse := (h.ids d id).mp hid
    refine ⟨fun e k => ?_, fun e => ?_, fun k => ?_, ?_, fun k hk => ?_⟩
    · have hek := h.ids e k
      simp only [detachPostings_docIdForward, detachPostings_docIdReverse, SortedMap.get_erase]
      split_ifs <;> grind
    · have hlive := h.live e
      simp only [detachPostings_docIdForward, SortedMap.get_erase]
      split_ifs with he
      · rfl
      · exact hlive
    · simp only [detachPostings_docEntries, detachPostings_docIdReverse, SortedMap.get_erase]
      split_ifs with hk
      · rfl
      · rw [h.entries]
        refine Option.bind_congr fun e he => ?_
        have hne : e ≠ d := by
          rintro rfl
          have := (h.ids e k).mpr he
          rw [hid] at this
          exact hk (Option.some.inj this).symm
        rw [if_neg hne]
    · have hdetached := of_detachPostings
        (s := { s with docIdForward := s.docIdForward.erase d }) h.postings id
      have hsame : Function.update (fun id => s.docEntries.get id) id none =
          fun other => (s.docEntries.erase id).get other := by
        funext other
        by_cases hother : other = id
        · subst hother
          simp
        · simp [hother]
      simp only [detachPostings_docEntries]
      exact hsame ▸ hdetached
    · simp only [detachPostings_docIdReverse, detachPostings_nextId, SortedMap.get_erase] at hk ⊢
      split_ifs at hk
      · cases hk
      · exact h.fresh k hk

end Steps

section Live

variable {s : SparseInvertedIndex R} {docs : SortedMap String (SparseVector R)}

lemma Represents.live_of_reverse (h : s.Represents docs) {id : Nat} {d : String}
    (hid : s.docIdReverse.get id = some d) : ∃ v, docs.get d = some v := by
  rw [← Option.isSome_iff_exists, ← h.live d, (h.ids d id).mpr hid]
  rfl

end Live

section Scores

variable [Ring R]

/-- The weight of a dimension, 0 for one that the vector does not have. -/
def weight (v : SparseVector R) (dim : Nat) : R :=
  ((v.entries.filter fun e => e.1 = dim).map Prod.snd).sum

def dot (query v : SparseVector R) : R := (query.entries.map fun e => e.2 * weight v e.1).sum

lemma get_foldl_accumulate (queryWeight : R) (l : List (Nat × R)) (acc : SortedMap Nat R)
    (id : Nat) :
    ((l.foldl (accumulate queryWeight) acc).get id).getD 0 = (acc.get id).getD 0 +
      ((l.filter fun e => e.1 = id).map fun e => queryWeight * e.2).sum := by
  induction l generalizing acc with
  | nil => simp
  | cons e l ih =>
    rw [List.foldl_cons, ih, accumulate, SortedMap.get_insert]
    by_cases hid : id = e.1
    · subst hid
      simp [add_assoc]
    · simp [hid, Ne.symm hid]

variable {s : SparseInvertedIndex R} {docs : SortedMap String (SparseVector R)}

lemma Represents.sum_postings (h : s.Represents docs) {id : Nat} {d : String} {v : SparseVector R}
    (hid : s.docIdReverse.get id = some d) (hv : docs.get d = some v) (queryWeight : R)
    (dim : Nat) :
    (((Postings.list s.postings dim).filter fun e => e.1 = id).map
      fun e => queryWeight * e.2).sum = queryWeight * weight v dim := by
  have hentries : s.docEntries.get id = some v.entries := by
    rw [h.entries, hid, Option.bind_some, hv, Option.map_some]
  have hmem : ∀ w, (id, w) ∈ Postings.list s.postings dim ↔ (dim, w) ∈ v.entries := by
    intro w
    rw [h.postings.mem]
    simp [hentries]
  rw [weight]
  obtain ⟨w, hw, hfilter⟩ | ⟨hnone, hfilter⟩ := Postings.filter_key (h.postings.nodup dim) id
  · obtain ⟨w', hw', hfilter'⟩ | ⟨hnone, -⟩ := Postings.filter_key v.nodup dim
    · have hsame : (id, w') ∈ (Postings.list s.postings dim).filter (fun e => e.1 = id) :=
        List.mem_filter.mpr ⟨(hmem w').mpr hw', decide_eq_true rfl⟩
      rw [hfilter, List.mem_singleton] at hsame
      cases hsame
      simp [hfilter, hfilter']
    · exact absurd (List.mem_map.mpr ⟨(dim, w), (hmem w).mp hw, rfl⟩) hnone
  · obtain ⟨w', hw', -⟩ | ⟨-, hfilter'⟩ := Postings.filter_key v.nodup dim
    · exact absurd (List.mem_map.mpr ⟨(id, w'), (hmem w').mpr hw', rfl⟩) hnone
    · simp [hfilter, hfilter']

/-- The score of a document is the product of its vector with the query. -/
lemma Represents.get_scores (h : s.Represents docs) (query : SparseVector R) {id : Nat} {d : String}
    {v : SparseVector R} (hid : s.docIdReverse.get id = some d) (hv : docs.get d = some v) :
    ((s.scores query).get id).getD 0 = dot query v := by
  suffices hfold : ∀ (q : List (Nat × R)) (acc : SortedMap Nat R),
      ((q.foldl (fun acc e => (Postings.list s.postings e.1).foldl (accumulate e.2) acc)
        acc).get id).getD 0 = (acc.get id).getD 0 + (q.map fun e => e.2 * weight v e.1).sum by
    rw [scores, hfold, dot]
    simp
  intro q
  induction q with
  | nil => simp
  | cons e q ih =>
    intro acc
    rw [List.foldl_cons, ih, get_foldl_accumulate, h.sum_postings hid hv, List.map_cons,
      List.sum_cons, add_assoc]

end Scores

section Hits

variable [Ring R] [LinearOrder R] {s : SparseInvertedIndex R}
  {docs : SortedMap String (SparseVector R)}

/-- The hits among the documents: those with a score. -/
def hitsOf (docs : SortedMap String (SparseVector R)) (query : SparseVector R) :
    List (SparseHit R) :=
  (docs.entries.map fun e => (⟨e.1, dot query e.2⟩ : SparseHit R)).filter fun hit => hit.score ≠ 0

lemma mem_hitsOf {query : SparseVector R} {hit : SparseHit R} :
    hit ∈ hitsOf docs query ↔
      ∃ v, docs.get hit.docId = some v ∧ hit.score = dot query v ∧ hit.score ≠ 0 := by
  obtain ⟨d, score⟩ := hit
  simp only [hitsOf, List.mem_filter, List.mem_map, decide_eq_true_eq, Prod.exists,
    SparseHit.mk.injEq, SortedMap.get_eq_some_iff]
  constructor
  · rintro ⟨⟨d', v, hv, rfl, rfl⟩, hne⟩
    exact ⟨v, hv, rfl, hne⟩
  · rintro ⟨v, hv, rfl, hne⟩
    exact ⟨⟨d, v, hv, rfl, rfl⟩, hne⟩

lemma nodup_hitsOf (query : SparseVector R) : (hitsOf docs query).Nodup := by
  refine List.Nodup.filter _ (List.Nodup.of_map SparseHit.docId ?_)
  rw [List.map_map]
  exact docs.keys_nodup

/-- The hits before they are put in order. -/
def rawHits (s : SparseInvertedIndex R) (query : SparseVector R) : List (SparseHit R) :=
  ((s.scores query).entries.filter fun e => e.2 ≠ 0).filterMap fun e =>
    (s.docIdReverse.get e.1).map fun docId => ⟨docId, e.2⟩

lemma Represents.mem_rawHits (h : s.Represents docs) (query : SparseVector R) (hit : SparseHit R) :
    hit ∈ s.rawHits query ↔ hit ∈ hitsOf docs query := by
  obtain ⟨d, score⟩ := hit
  simp only [mem_hitsOf, rawHits, List.mem_filterMap, List.mem_filter, decide_eq_true_eq,
    Prod.exists, Option.map_eq_some_iff, SparseHit.mk.injEq, ← SortedMap.get_eq_some_iff]
  constructor
  · rintro ⟨id, score', ⟨hscore, hne⟩, d', hid, rfl, rfl⟩
    obtain ⟨v, hv⟩ := h.live_of_reverse hid
    have hdot := h.get_scores query hid hv
    rw [hscore] at hdot
    exact ⟨v, hv, hdot, hne⟩
  · rintro ⟨v, hv, rfl, hne⟩
    have hlive := h.live d
    rw [hv, Option.isSome_some] at hlive
    obtain ⟨id, hforward⟩ := Option.isSome_iff_exists.mp hlive
    have hid := (h.ids d id).mp hforward
    have hdot := h.get_scores query hid hv
    refine ⟨id, dot query v, ⟨?_, hne⟩, d, hid, rfl, rfl⟩
    cases hget : (s.scores query).get id with
    | none =>
      rw [hget] at hdot
      exact absurd hdot.symm hne
    | some score =>
      rw [hget] at hdot
      exact congrArg some hdot

lemma Represents.nodup_rawHits (h : s.Represents docs) (query : SparseVector R) :
    (s.rawHits query).Nodup := by
  have hnodup : ((s.scores query).entries.filter fun e => e.2 ≠ 0).Nodup :=
    (SortedMap.nodup_of_sorted (s.scores query).sorted).filter _
  refine hnodup.filterMap fun e e' hit he he' => ?_
  obtain ⟨d, hd, rfl⟩ := Option.map_eq_some_iff.mp he
  obtain ⟨d', hd', heq⟩ := Option.map_eq_some_iff.mp he'
  obtain ⟨rfl, hscore⟩ := SparseHit.mk.inj heq
  have hid := (h.ids d' e.1).mpr hd
  rw [(h.ids d' e'.1).mpr hd'] at hid
  exact Prod.ext (Option.some.inj hid).symm hscore.symm

omit [Ring R] in
lemma before_iff {a b : SparseHit R} :
    before a b ↔ b.score < a.score ∨ (a.score = b.score ∧ a.docId ≤ b.docId) := by
  simp only [before, Bool.or_eq_true, Bool.and_eq_true, decide_eq_true_eq]

omit [Ring R] in
lemma before_total (a b : SparseHit R) : before a b || before b a := by
  rw [Bool.or_eq_true, before_iff, before_iff]
  obtain hlt | heq | hgt := lt_trichotomy a.score b.score
  · exact .inr (.inl hlt)
  · obtain hle | hle := le_total a.docId b.docId
    · exact .inl (.inr ⟨heq, hle⟩)
    · exact .inr (.inr ⟨heq.symm, hle⟩)
  · exact .inl (.inl hgt)

omit [Ring R] in
lemma before_trans (a b c : SparseHit R) (hab : before a b) (hbc : before b c) : before a c := by
  rw [before_iff] at *
  obtain hab | ⟨hab, hle⟩ := hab <;> obtain hbc | ⟨hbc, hle'⟩ := hbc
  · exact .inl (hbc.trans hab)
  · exact .inl (hbc ▸ hab)
  · exact .inl (hab ▸ hbc)
  · exact .inr ⟨hab.trans hbc, hle.trans hle'⟩

omit [Ring R] in
lemma before_antisymm (a b : SparseHit R) (hab : before a b) (hba : before b a) : a = b := by
  obtain ⟨d, x⟩ := a
  obtain ⟨d', y⟩ := b
  rw [before_iff] at hab hba
  obtain hab | ⟨rfl, hle⟩ := hab
  · obtain hba | ⟨rfl, -⟩ := hba
    · exact absurd (hab.trans hba) (lt_irrefl _)
    · exact absurd hab (lt_irrefl _)
  · obtain hba | ⟨-, hle'⟩ := hba
    · exact absurd hba (lt_irrefl _)
    · exact congrArg (SparseHit.mk · x) (le_antisymm hle hle')

lemma Represents.search_eq (h : s.Represents docs) (query : SparseVector R) (topK : Nat) :
    s.search query topK = if topK = 0 ∨ query.entries = [] then []
      else ((hitsOf docs query).mergeSort before).take topK := by
  have hperm : (s.rawHits query).Perm (hitsOf docs query) :=
    (List.perm_ext_iff_of_nodup (h.nodup_rawHits query) (nodup_hitsOf query)).mpr
      (h.mem_rawHits query)
  have hsorted : (s.rawHits query).mergeSort before = (hitsOf docs query).mergeSort before := by
    refine List.Perm.eq_of_pairwise (fun a b _ _ => before_antisymm a b)
      (List.pairwise_mergeSort before_trans before_total _)
      (List.pairwise_mergeSort before_trans before_total _) ?_
    exact (List.mergeSort_perm _ _).trans (hperm.trans (List.mergeSort_perm _ _).symm)
  rw [search, ← hsorted]
  rfl

end Hits

section Rebuild

variable {s : SparseInvertedIndex R} {docs : SortedMap String (SparseVector R)}

lemma Represents.documents_eq (h : s.Represents docs) :
    s.documents = docs.entries.map fun e => (e.1, e.2.entries) := by
  have hmem : ∀ d es, (d, es) ∈ s.docIdForward.entries.filterMap (fun e =>
      (s.docEntries.get e.2).map fun entries => (e.1, entries)) ↔
      (d, es) ∈ docs.entries.map fun e => (e.1, e.2.entries) := by
    intro d es
    simp only [List.mem_filterMap, List.mem_map, Prod.exists, Option.map_eq_some_iff,
      Prod.mk.injEq, ← SortedMap.get_eq_some_iff]
    constructor
    · rintro ⟨d', id, hid, es', hes, rfl, rfl⟩
      rw [h.entries, (h.ids d' id).mp hid, Option.bind_some, Option.map_eq_some_iff] at hes
      obtain ⟨v, hv, rfl⟩ := hes
      exact ⟨d', v, hv, rfl, rfl⟩
    · rintro ⟨d', v, hv, rfl, rfl⟩
      have hlive := h.live d'
      rw [hv, Option.isSome_some] at hlive
      obtain ⟨id, hid⟩ := Option.isSome_iff_exists.mp hlive
      refine ⟨d', id, hid, v.entries, ?_, rfl, rfl⟩
      rw [h.entries, (h.ids d' id).mp hid, Option.bind_some, hv, Option.map_some]
  have hleft : (s.docIdForward.entries.filterMap fun e =>
      (s.docEntries.get e.2).map fun entries => (e.1, entries)).Pairwise (fun a b => a.1 < b.1) := by
    refine s.docIdForward.sorted.filterMap _ fun e e' hlt b hb b' hb' => ?_
    obtain ⟨es, -, rfl⟩ := Option.map_eq_some_iff.mp hb
    obtain ⟨es', -, rfl⟩ := Option.map_eq_some_iff.mp hb'
    exact hlt
  have hright : (docs.entries.map fun e => (e.1, e.2.entries)).Pairwise (fun a b => a.1 < b.1) :=
    List.pairwise_map.mpr docs.sorted
  have hperm := (List.perm_ext_iff_of_nodup (SortedMap.nodup_of_sorted hleft)
    (SortedMap.nodup_of_sorted hright)).mpr fun e => hmem e.1 e.2
  rw [documents, List.mergeSort_of_pairwise (hleft.imp fun hlt => decide_eq_true hlt.le)]
  exact hperm.eq_of_pairwise (fun a b _ _ hab hba => absurd (hab.trans hba) (lt_irrefl _)) hleft
    hright

lemma Represents.length_le (h : s.Represents docs) : docs.entries.length ≤ s.nextId := by
  have hid : ∀ d ∈ docs.keys, ∃ id, s.docIdForward.get d = some id := by
    intro d hd
    rw [← Option.isSome_iff_exists, h.live d, ← SortedMap.mem_keys]
    exact hd
  have hcard : docs.keys.toFinset.card ≤ (Finset.range s.nextId).card := by
    refine Finset.card_le_card_of_injOn (fun d => (s.docIdForward.get d).getD 0) ?_ ?_
    · intro d hd
      obtain ⟨id, hget⟩ := hid d (by simpa using hd)
      simp only [hget, Option.getD_some, Finset.coe_range, Set.mem_Iio]
      exact h.fresh id (by rw [(h.ids d id).mp hget]; rfl)
    · intro d hd d' hd' heq
      obtain ⟨id, hget⟩ := hid d (by simpa using hd)
      obtain ⟨id', hget'⟩ := hid d' (by simpa using hd')
      simp only [hget, hget', Option.getD_some] at heq
      subst heq
      exact Option.some.inj (((h.ids d id).mp hget).symm.trans ((h.ids d' id).mp hget'))
  rwa [List.toFinset_card_of_nodup docs.keys_nodup, Finset.card_range, SortedMap.keys,
    List.length_map] at hcard

lemma nextId_insert_le (s : SparseInvertedIndex R) (d : String) (v : SparseVector R) :
    (s.insert d v).nextId ≤ s.nextId + 1 := by
  rw [SparseInvertedIndex.insert]
  cases s.docIdForward.get d with
  | none => exact Nat.min_le_left _ _
  | some id =>
    simp only [addVector, detachPostings_nextId]
    exact Nat.le_succ _

lemma Represents.foldl_insert (l : List (String × SparseVector R)) (h : s.Represents docs)
    (hroom : s.nextId + l.length < u32Max) :
    (l.foldl (fun s e => s.insert e.1 e.2) s).Represents
      (l.foldl (fun docs e => docs.insert e.1 e.2) docs) := by
  induction l generalizing s docs with
  | nil => exact h
  | cons e l ih =>
    rw [List.length_cons] at hroom
    refine ih (h.insert e.1 e.2 fun _ => by omega) ?_
    have hnext := nextId_insert_le s e.1 e.2
    change (s.insert e.1 e.2).nextId + l.length < u32Max
    omega

lemma Represents.rebuild (h : s.Represents docs)
    {fromEntries : List (Nat × R) → Option (SparseVector R)}
    (hentries : ∀ v : SparseVector R, fromEntries v.entries = some v) (hroom : s.nextId < u32Max) :
    (fromDocuments fromEntries s.documents).Represents docs := by
  have hfold : fromDocuments fromEntries s.documents =
      docs.entries.foldl (fun s e => s.insert e.1 e.2) new := by
    rw [fromDocuments, h.documents_eq, List.foldl_map]
    simp only [hentries]
  have hdocs : docs.entries.foldl (fun docs e => docs.insert e.1 e.2) .empty = docs := by
    refine SortedMap.ext fun d => ?_
    cases hd : docs.get d with
    | none =>
      refine SortedMap.get_ofList_of_notMem fun hmem => ?_
      rw [← SortedMap.keys, SortedMap.mem_keys, hd] at hmem
      cases hmem
    | some v =>
      exact SortedMap.get_ofList_of_mem docs.keys_nodup (SortedMap.get_eq_some_iff.mp hd)
  have hrebuilt := Represents.foldl_insert docs.entries (represents_new (R := R)) (by
    have := h.length_le
    change 0 + docs.entries.length < u32Max
    omega)
  rw [hdocs] at hrebuilt
  rw [hfold]
  exact hrebuilt

end Rebuild

end SparseInvertedIndex

open SparseInvertedIndex

/-- The writes to the index of a field. -/
inductive SparseCall (R : Type*)
  | insert (docId : String) (vector : SparseVector R)
  | delete (docId : String)

def SparseCall.apply (s : SparseInvertedIndex R) : SparseCall R → SparseInvertedIndex R
  | .insert docId vector => s.insert docId vector
  | .delete docId => (s.delete docId).1

/-- The internal ids that a call creates. -/
def SparseCall.creates (s : SparseInvertedIndex R) : SparseCall R → Nat
  | .insert docId _ => if s.docIdForward.get docId = none then 1 else 0
  | .delete _ => 0

def createdIds : SparseInvertedIndex R → List (SparseCall R) → Nat
  | _, [] => 0
  | s, call :: calls => call.creates s + createdIds (call.apply s) calls

def runCalls (calls : List (SparseCall R)) : SparseInvertedIndex R :=
  calls.foldl SparseCall.apply new

/-- What a call says about the documents. -/
def SparseCall.note (docs : SortedMap String (SparseVector R)) :
    SparseCall R → SortedMap String (SparseVector R)
  | .insert docId vector => docs.insert docId vector
  | .delete docId => docs.erase docId

/-- The latest vectors of the live documents, from the calls alone. -/
def latestVectors (calls : List (SparseCall R)) : SortedMap String (SparseVector R) :=
  calls.foldl SparseCall.note .empty

lemma nextId_apply {s : SparseInvertedIndex R} {call : SparseCall R}
    (hroom : s.nextId + call.creates s < u32Max) :
    (call.apply s).nextId = s.nextId + call.creates s := by
  cases call with
  | insert d v =>
    simp only [SparseCall.apply, SparseCall.creates, SparseInvertedIndex.insert] at hroom ⊢
    cases hid : s.docIdForward.get d with
    | none =>
      rw [hid, if_pos rfl] at hroom
      exact Nat.min_eq_left hroom.le
    | some id => simp [addVector]
  | delete d =>
    simp only [SparseCall.apply, SparseCall.creates, SparseInvertedIndex.delete]
    cases s.docIdForward.get d with
    | none => rfl
    | some id => simp

/-- A call keeps what the index stands for, while there are internal ids. -/
lemma represents_apply {s : SparseInvertedIndex R} {docs : SortedMap String (SparseVector R)}
    (h : s.Represents docs) {call : SparseCall R} (hroom : s.nextId + call.creates s < u32Max) :
    (call.apply s).Represents (call.note docs) := by
  cases call with
  | insert d v =>
    exact h.insert d v fun _ => by omega
  | delete d => exact h.delete d

lemma represents_runCalls {calls : List (SparseCall R)}
    (hroom : createdIds (new : SparseInvertedIndex R) calls < u32Max) :
    (runCalls calls).Represents (latestVectors calls) ∧ (runCalls calls).nextId < u32Max := by
  suffices hrun : ∀ (calls : List (SparseCall R)) (s : SparseInvertedIndex R)
      (docs : SortedMap String (SparseVector R)), s.Represents docs →
      s.nextId + createdIds s calls < u32Max →
      (calls.foldl SparseCall.apply s).Represents (calls.foldl SparseCall.note docs) ∧
        (calls.foldl SparseCall.apply s).nextId < u32Max by
    refine hrun calls new .empty represents_new ?_
    change 0 + createdIds new calls < u32Max
    omega
  intro calls
  induction calls with
  | nil => exact fun s docs h hlt => ⟨h, hlt⟩
  | cons call calls ih =>
    intro s docs h hlt
    rw [createdIds] at hlt
    have hstep : s.nextId + call.creates s < u32Max := by omega
    refine ih _ _ (represents_apply h hstep) ?_
    rw [nextId_apply hstep]
    omega

/-- After any writes that create fewer than 2^32 - 1 internal ids, every live document has one
posting for each dimension of its latest vector, there are no others, and a search answers as on
the rebuilt index. -/
theorem sparse_index_equals_rebuild [Ring R] [LinearOrder R]
    (fromEntries : List (Nat × R) → Option (SparseVector R))
    (hentries : ∀ v : SparseVector R, fromEntries v.entries = some v)
    (calls : List (SparseCall R))
    (hids : createdIds (new : SparseInvertedIndex R) calls < 2 ^ 32 - 1) :
    (∀ d, ((runCalls calls).docIdForward.get d).isSome = ((latestVectors calls).get d).isSome) ∧
      (∀ d d' id, (runCalls calls).docIdForward.get d = some id →
        (runCalls calls).docIdForward.get d' = some id → d = d') ∧
      (∀ dim, (runCalls calls).postings.get dim ≠ some [] ∧
        ((Postings.list (runCalls calls).postings dim).map Prod.fst).Nodup ∧
        ∀ id w, (id, w) ∈ Postings.list (runCalls calls).postings dim ↔
          ∃ d v, (latestVectors calls).get d = some v ∧
            (runCalls calls).docIdForward.get d = some id ∧ (dim, w) ∈ v.entries) ∧
      ∀ query topK, (runCalls calls).search query topK =
        (fromDocuments fromEntries (runCalls calls).documents).search query topK := by
  obtain ⟨h, hroom⟩ := represents_runCalls hids
  refine ⟨h.live, fun d d' id hd hd' => ?_, fun dim => ⟨h.postings.noEmpty dim,
    h.postings.nodup dim, fun id w => ?_⟩, fun query topK => ?_⟩
  · exact Option.some.inj (((h.ids d id).mp hd).symm.trans ((h.ids d' id).mp hd'))
  · rw [h.postings.mem]
    simp only [h.entries, Option.bind_eq_some_iff, Option.map_eq_some_iff, ← h.ids]
    constructor
    · rintro ⟨es, ⟨d, hid, v, hv, rfl⟩, hmem⟩
      exact ⟨d, v, hv, hid, hmem⟩
    · rintro ⟨d, v, hv, hid, hmem⟩
      exact ⟨v.entries, ⟨d, hid, v, hv, rfl⟩, hmem⟩
  · rw [h.search_eq, (h.rebuild hentries hroom).search_eq]

/-- A vector of the entries, if their dimensions are in order. -/
def ofEntries (entries : List (Nat × Int)) : Option (SparseVector Int) :=
  if h : entries.Pairwise (fun a b => a.1 < b.1) then some ⟨entries, h⟩ else none

theorem sparse_index_equals_rebuild_replaced :
    (runCalls [.insert "a" ⟨[(1, 2)], by simp⟩, .insert "a" ⟨[(3, 4)], by simp⟩,
      .delete "b"]).search ⟨[(3, 1)], by simp⟩ 1 =
    (fromDocuments ofEntries
      (runCalls [.insert "a" ⟨[(1, (2 : Int))], by simp⟩, .insert "a" ⟨[(3, 4)], by simp⟩,
        .delete "b"]).documents).search ⟨[(3, 1)], by simp⟩ 1 :=
  (sparse_index_equals_rebuild ofEntries (fun v => by rw [ofEntries, dif_pos v.sorted])
    [.insert "a" ⟨[(1, 2)], by simp⟩, .insert "a" ⟨[(3, 4)], by simp⟩, .delete "b"]
    (by decide +kernel)).2.2.2 _ _

end NodedbLite.SparseIndex
