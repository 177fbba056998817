import NodedbLite.CappedOutput
import NodedbLite.Having
import NodedbLite.JoinExact

/-! A join query with WHERE and LIMIT. The limit is given to the join, ahead of the filters, and of the
WHERE predicates only those with a primitive form go on to the join's filters. -/
namespace NodedbLite.Query

section Conversion

/-- A primitive filter: `compare` stands for `Eq`, `Ne`, `Gt`, `Gte`, `Lt` and `Lte`. -/
inductive MetadataFilter
  | compare (field : String) (op : CompareOp) (value : Value)
  | within (field : String) (values : List Value)
  | and (filters : List MetadataFilter)
  | or (filters : List MetadataFilter)
  | not (filter : MetadataFilter)

/-- An expression for the evaluator; `Q` are those that come from SQL expressions. -/
inductive QExpr (Q : Type)
  | column (name : String)
  | literal (v : Value)
  | binaryOp (left : QExpr Q) (op : BinaryOp) (right : QExpr Q)
  | isNull (expr : QExpr Q) (negated : Bool)
  | converted (q : Q)

/-- The conversion of SQL expressions, number texts, and the bytes of filters: a primitive filter is
written, a list of scan filters is read. -/
structure WhereApi (Q F : Type) extends DecimalApi where
  convertSqlExpr : SqlExpr → Except LiteError Q
  encode : MetadataFilter → Except String Bytes
  decode : Bytes → Except String (List F)

variable {Q F : Type} (W : WhereApi Q F)

mutual

/-- The primitive form of a predicate. None if an expression, or a literal without a value, stands in
it at any depth. -/
def tryConvertFilterToMeta : FilterExpr → Option MetadataFilter
  | .comparison field op value => do
    let v ← (sqlValueToValue W.toDecimalApi value).toOption
    some (.compare field op v)
  | .inList field values => do
    let vs ← values.mapM fun v => (sqlValueToValue W.toDecimalApi v).toOption
    some (.within field vs)
  | .between field low high => do
    let lo ← (sqlValueToValue W.toDecimalApi low).toOption
    let hi ← (sqlValueToValue W.toDecimalApi high).toOption
    some (.and [.compare field .ge lo, .compare field .le hi])
  | .isNull field => some (.compare field .eq .null)
  | .isNotNull field => some (.compare field .ne .null)
  | .and sub => (tryConvertAll sub).map .and
  | .or sub => (tryConvertAll sub).map .or
  | .not inner => (tryConvertFilterToMeta inner).map .not
  | .expr _ => none

def tryConvertAll : List FilterExpr → Option (List MetadataFilter)
  | [] => some []
  | f :: fs => do
    let part ← tryConvertFilterToMeta f
    let parts ← tryConvertAll fs
    some (part :: parts)

end

def combineArms (arms : List (QExpr Q)) (op : BinaryOp) (identity : Bool) : QExpr Q :=
  match arms with
  | [] => .literal (.bool identity)
  | first :: rest => rest.foldl (fun a b => .binaryOp a op b) first

def compareLiteral (field : String) (op : CompareOp) (value : SqlValue) :
    Except LiteError (QExpr Q) := do
  let v ← sqlValueToValue W.toDecimalApi value
  .ok (.binaryOp (.column field) (.compare op) (.literal v))

mutual

def filterToQexpr : FilterExpr → Except LiteError (QExpr Q)
  | .comparison field op value => compareLiteral W field op value
  | .inList field values => do
    let arms ← values.mapM (compareLiteral W field .eq)
    .ok (combineArms arms .or false)
  | .between field low high => do
    let gte ← compareLiteral W field .ge low
    let lte ← compareLiteral W field .le high
    .ok (.binaryOp gte .and lte)
  | .isNull field => .ok (.isNull (.column field) false)
  | .isNotNull field => .ok (.isNull (.column field) true)
  | .and sub => do
    let arms ← filtersToQexpr sub
    .ok (combineArms arms .and true)
  | .or sub => do
    let arms ← filtersToQexpr sub
    .ok (combineArms arms .or false)
  | .not inner => do
    let q ← filterToQexpr inner
    .ok (.binaryOp q (.compare .eq) (.literal (.bool false)))
  | .expr e => (W.convertSqlExpr e).map .converted

def filtersToQexpr : List FilterExpr → Except LiteError (List (QExpr Q))
  | [] => .ok []
  | f :: fs => do
    let arm ← filterToQexpr f
    let arms ← filtersToQexpr fs
    .ok (arm :: arms)

end

/-- To a primitive filter, or else as a whole to an expression. -/
def convertFilter (f : FilterExpr) : Except LiteError (MetadataFilter ⊕ QExpr Q) :=
  match tryConvertFilterToMeta W f with
  | some filter => .ok (.inl filter)
  | none => (filterToQexpr W f).map .inr

structure LiteFilter (Q : Type) where
  primitive : Option MetadataFilter
  exprs : List (QExpr Q)

def sqlFiltersToMetadata (filters : List FilterExpr) : Except LiteError (LiteFilter Q) := do
  let parts ← filters.mapM (convertFilter W)
  .ok ⟨match parts.filterMap Sum.getLeft? with
    | [] => none
    | [single] => some single
    | several => some (.and several), parts.filterMap Sum.getRight?⟩

/-- Only the primitive part is encoded. -/
def encodeFilters (filters : List FilterExpr) : Except LiteError Bytes :=
  if filters.isEmpty then .ok []
  else do
    let lowered ← sqlFiltersToMetadata W filters
    match lowered.primitive with
    | none => .ok []
    | some filter => (W.encode filter).mapError fun e => .serialization ("encode filters: " ++ e)

def decodeFilters (bytes : Bytes) : Except LiteError (List F) :=
  if bytes.isEmpty then .ok []
  else (W.decode bytes).mapError fun e => .serialization ("decode join filters: " ++ e)

/-- The filters of the join, as they are read back. -/
def postFilters (filters : List FilterExpr) : Except LiteError (List F) := do
  let bytes ← encodeFilters W filters
  decodeFilters W bytes

end Conversion

section Query

variable {E F Q : Type} (A : AggregateApi E F) (W : WhereApi Q F)

def lowerJoin (lefts rights : List Row) (on : List (String × String)) (joinType : JoinType)
    (limit : Option Nat) (projection : List JoinProjection) (filters : List FilterExpr) :
    Except LiteError QueryResult := do
  let decoded ← postFilters W filters
  executeInlineHashJoin A lefts rights none ⟨on, joinType, limit.getD usizeMax, projection, decoded⟩

/-- The rows of the query, ahead of its projection. -/
def lowerJoinRows (lefts rights : List Row) (on : List (String × String)) (joinType : JoinType)
    (limit : Option Nat) (filters : List FilterExpr) : Except LiteError (List Row) := do
  let decoded ← postFilters W filters
  retainMatching A (hashJoin A.fmt (on.map Prod.snd) (on.map Prod.fst) joinType none
    (if limit.getD usizeMax = 0 then usizeMax else limit.getD usizeMax) rights lefts) decoded

/-- The query returns the first rows of the unlimited join that satisfy every predicate. -/
def SqlOrder (sat : FilterExpr → Row → Bool) (lefts rights : List Row) (on : List (String × String))
    (joinType : JoinType) (n : Nat) (filters : List FilterExpr) : Prop :=
  ∃ rows full, lowerJoinRows A W lefts rights on joinType (some n) filters = .ok rows ∧
    lowerJoinRows A W lefts rights on joinType none [] = .ok full ∧
    rows = (full.filter fun row => filters.all fun predicate => sat predicate row).take n

/-- What the filters of the join say of a row. -/
def filterAnswer (filters : List F) (row : Row) : Except LiteError Bool :=
  if filters.isEmpty then .ok true else A.allMatch filters row

/-- The rows of the unlimited join. -/
def joinedRows (fmt : UInt64 → String) (lefts rights : List Row) (on : List (String × String))
    (joinType : JoinType) : List Row :=
  nestedLoop joinType (textMatch fmt (on.map Prod.fst) (on.map Prod.snd)) lefts rights

/-- The filters that reach the join say of the first rows what the predicates say, and these hold for
all of them or for no later row. -/
def FilteredInTime (sat : FilterExpr → Row → Bool) (n : Nat) (filters : List FilterExpr)
    (decoded : List F) (joined : List Row) : Prop :=
  (∀ row ∈ joined.take n,
    filterAnswer A decoded row = .ok (filters.all fun predicate => sat predicate row)) ∧
  ((∀ row ∈ joined.take n, ∀ predicate ∈ filters, sat predicate row) ∨
    ∀ row ∈ joined.drop n, ∃ predicate ∈ filters, sat predicate row = false)

variable {A W} {lefts rights : List Row} {on : List (String × String)} {joinType : JoinType}

lemma lowerJoin_eq (limit : Option Nat) (projection : List JoinProjection)
    (filters : List FilterExpr) :
    lowerJoin A W lefts rights on joinType limit projection filters
      = (lowerJoinRows A W lefts rights on joinType limit filters).map
          fun rows => mapsToResult (applyProjection rows projection) := by
  unfold lowerJoin lowerJoinRows executeInlineHashJoin
  simp only [bind, Except.bind]
  cases postFilters W filters with
  | error err => rfl
  | ok decoded =>
    dsimp only [JoinSpec.splitKeys, JoinSpec.effectiveLimit]
    cases retainMatching A _ decoded <;> rfl

lemma retainMatching_eq_ok_iff {filters : List F} {rows kept : List Row} :
    retainMatching A rows filters = .ok kept ↔
      ∃ keep : Row → Bool, (∀ row ∈ rows, filterAnswer A filters row = .ok (keep row)) ∧
        kept = rows.filter keep := by
  unfold retainMatching
  cases hempty : filters.isEmpty with
  | true =>
    simp only [if_true, Except.ok.injEq, filterAnswer, hempty]
    constructor
    · rintro rfl
      exact ⟨fun _ => true, fun _ _ => rfl, (List.filter_eq_self.mpr fun _ _ => rfl).symm⟩
    · rintro ⟨keep, hkeep, rfl⟩
      exact (List.filter_eq_self.mpr fun row hrow => (hkeep row hrow).symm).symm
  | false =>
    have hanswer : ∀ row, filterAnswer A filters row = A.allMatch filters row := by
      simp [filterAnswer, hempty]
    simp only [hanswer]
    exact ExceptFold.foldlM_keep_ok_iff

/-- The limit takes the first rows of the join: it is not zero unless the join is empty, and the
unmatched right rows of a right or full join begin below it, or there are none left. -/
def LimitExact (fmt : UInt64 → String) (lefts rights : List Row) (on : List (String × String))
    (joinType : JoinType) (n : Nat) : Prop :=
  (n = 0 → joinedRows fmt lefts rights on joinType = []) ∧
  (0 < n → joinType = .right ∨ joinType = .full →
    (leftPhase joinType (textMatch fmt (on.map Prod.fst) (on.map Prod.snd)) lefts rights).length < n ∨
      unmergedRows fmt (on.map Prod.snd) (on.map Prod.fst) joinType n rights lefts = [])

section Limited

variable (hsize : lefts.length * (rights.length + 1) + rights.length < usizeMax)

include hsize

lemma hashJoin_unlimited : hashJoin A.fmt (on.map Prod.snd) (on.map Prod.fst) joinType none usizeMax
    rights lefts = joinedRows A.fmt lefts rights on joinType := by
  have hle := length_nestedLoop_le joinType (textMatch A.fmt (on.map Prod.fst) (on.map Prod.snd))
    lefts rights
  have hphase : (leftPhase joinType (textMatch A.fmt (on.map Prod.fst) (on.map Prod.snd)) lefts
      rights).length < usizeMax := by
    rw [nestedLoop, List.length_append] at hle
    omega
  rw [hashJoin_eq_take lefts (by decide) (fun _ => hphase)]
  exact List.take_of_length_le (hle.trans hsize.le)

lemma hashJoin_of_limitExact {n : Nat} (h : LimitExact A.fmt lefts rights on joinType n) :
    hashJoin A.fmt (on.map Prod.snd) (on.map Prod.fst) joinType none (if n = 0 then usizeMax else n)
      rights lefts = (joinedRows A.fmt lefts rights on joinType).take n := by
  obtain ⟨hzero, hsurplus⟩ := h
  rcases Nat.eq_zero_or_pos n with rfl | hn
  · rw [if_pos rfl, hashJoin_unlimited hsize, hzero rfl]
    rfl
  · rw [if_neg hn.ne']
    by_cases hroom : joinType = .right ∨ joinType = .full → (leftPhase joinType
        (textMatch A.fmt (on.map Prod.fst) (on.map Prod.snd)) lefts rights).length < n
    · exact hashJoin_eq_take lefts hn hroom
    · obtain ⟨htype, hreached⟩ := Classical.not_imp.mp hroom
      rw [hashJoin_eq lefts hn, if_pos htype, (hsurplus hn htype).resolve_left hreached, List.take_nil,
        List.append_nil, joinedRows, nestedLoop,
        List.take_append_of_le_length (Nat.le_of_not_lt hreached)]

lemma lt_length_hashJoin {n : Nat} (h : ¬ LimitExact A.fmt lefts rights on joinType n) :
    n < (hashJoin A.fmt (on.map Prod.snd) (on.map Prod.fst) joinType none
      (if n = 0 then usizeMax else n) rights lefts).length := by
  rcases Nat.eq_zero_or_pos n with rfl | hn
  · rw [if_pos rfl, hashJoin_unlimited hsize]
    refine List.length_pos_iff.mpr fun hempty => h ⟨fun _ => hempty, fun hlt => ?_⟩
    exact absurd hlt (lt_irrefl 0)
  · have hsurplus : ¬ (joinType = .right ∨ joinType = .full → _) := fun hcond =>
      h ⟨fun hzero => absurd hzero hn.ne', fun _ => hcond⟩
    obtain ⟨htype, hsurplus⟩ := Classical.not_imp.mp hsurplus
    obtain ⟨hreached, hmore⟩ := not_or.mp hsurplus
    have hreached := Nat.le_of_not_lt hreached
    have hrow := List.length_pos_iff.mpr hmore
    rw [if_neg hn.ne', hashJoin_eq lefts hn, if_pos htype, Nat.sub_eq_zero_of_le hreached,
      List.length_append, List.length_take_of_le hreached, List.length_take]
    omega

end Limited

lemma postFilters_exprs {filters : List FilterExpr}
    (h : ∀ predicate ∈ filters, ∃ q, convertFilter W predicate = .ok (.inr q)) :
    postFilters W filters = .ok [] := by
  have hencode : encodeFilters W filters = .ok [] := by
    unfold encodeFilters
    split
    · rfl
    · obtain ⟨parts, hparts, hnone⟩ : ∃ parts, filters.mapM (convertFilter W) = .ok parts ∧
          parts.filterMap Sum.getLeft? = [] := by
        clear * - h
        induction filters with
        | nil => exact ⟨[], rfl, rfl⟩
        | cons p ps ih =>
          obtain ⟨q, hq⟩ := h p List.mem_cons_self
          obtain ⟨parts, hparts, hnone⟩ := ih (fun r hr => h r (List.mem_cons_of_mem _ hr))
          exact ⟨.inr q :: parts, ExceptFold.mapM_cons_ok.mpr ⟨_, _, hq, hparts, rfl⟩, hnone⟩
      unfold sqlFiltersToMetadata
      rw [hparts]
      simp only [bind, Except.bind, hnone]
  unfold postFilters
  rw [hencode]
  rfl

lemma sqlOrder_iff (sat : FilterExpr → Row → Bool)
    (hsize : lefts.length * (rights.length + 1) + rights.length < usizeMax) {n : Nat}
    {filters : List FilterExpr} :
    SqlOrder A W sat lefts rights on joinType n filters ↔
      ∃ decoded, postFilters W filters = .ok decoded ∧
        retainMatching A (hashJoin A.fmt (on.map Prod.snd) (on.map Prod.fst) joinType none
          (if n = 0 then usizeMax else n) rights lefts) decoded =
        .ok (((joinedRows A.fmt lefts rights on joinType).filter fun row =>
          filters.all fun predicate => sat predicate row).take n) := by
  have hfull : lowerJoinRows A W lefts rights on joinType none [] =
      .ok (joinedRows A.fmt lefts rights on joinType) :=
    congrArg Except.ok (hashJoin_unlimited hsize)
  unfold SqlOrder
  rw [hfull]
  constructor
  · rintro ⟨rows, full, hrows, hjoined, rfl⟩
    obtain rfl := Except.ok.inj hjoined
    exact ExceptFold.bind_eq_ok.mp hrows
  · intro h
    exact ⟨_, _, ExceptFold.bind_eq_ok.mpr h, rfl, rfl⟩

lemma sqlOrder_iff_of_limitExact (sat : FilterExpr → Row → Bool)
    (hsize : lefts.length * (rights.length + 1) + rights.length < usizeMax) {n : Nat}
    (filters : List FilterExpr) (hlimit : LimitExact A.fmt lefts rights on joinType n) :
    SqlOrder A W sat lefts rights on joinType n filters ↔
      ∃ decoded, postFilters W filters = .ok decoded ∧
        FilteredInTime A sat n filters decoded (joinedRows A.fmt lefts rights on joinType) := by
  rw [sqlOrder_iff sat hsize, hashJoin_of_limitExact hsize hlimit]
  refine exists_congr fun decoded => and_congr_right fun _ => ?_
  rw [retainMatching_eq_ok_iff, FilteredInTime]
  constructor
  · rintro ⟨keep, hkeep, heq⟩
    obtain ⟨hsame, hrest⟩ := CappedOutput.filter_take_eq_iff.mp heq.symm
    refine ⟨fun row hrow => by rw [hkeep row hrow, hsame row hrow], ?_⟩
    simpa using hrest
  · rintro ⟨hanswer, hrest⟩
    refine ⟨_, hanswer, (CappedOutput.filter_take_eq_iff.mpr ⟨fun _ _ => rfl, ?_⟩).symm⟩
    simpa using hrest

lemma sqlOrder_iff_of_exprs (sat : FilterExpr → Row → Bool)
    (hsize : lefts.length * (rights.length + 1) + rights.length < usizeMax) {n : Nat}
    {filters : List FilterExpr}
    (hexprs : ∀ predicate ∈ filters, ∃ q, convertFilter W predicate = .ok (.inr q)) :
    SqlOrder A W sat lefts rights on joinType n filters ↔
      LimitExact A.fmt lefts rights on joinType n ∧
        ∀ row ∈ (joinedRows A.fmt lefts rights on joinType).take n, ∀ predicate ∈ filters,
          sat predicate row := by
  have hdropped := postFilters_exprs hexprs
  by_cases hlimit : LimitExact A.fmt lefts rights on joinType n
  · rw [sqlOrder_iff_of_limitExact sat hsize filters hlimit, and_iff_right hlimit, hdropped]
    constructor
    · rintro ⟨_, ⟨⟩, hanswer, _⟩ row hrow
      have hall := Except.ok.inj (hanswer row hrow)
      simpa using hall.symm
    · intro hall
      refine ⟨[], rfl, fun row hrow => ?_, .inl hall⟩
      have hrow : (filters.all fun predicate => sat predicate row) = true := by
        simpa using hall row hrow
      rw [hrow]
      rfl
  · refine iff_of_false (fun h => ?_) fun h => hlimit h.1
    obtain ⟨decoded, hdecoded, hrows⟩ := (sqlOrder_iff sat hsize).mp h
    obtain rfl := Except.ok.inj (hdropped.symm.trans hdecoded)
    have hlen := lt_length_hashJoin (A := A) hsize hlimit
    rw [Except.ok.inj hrows] at hlen
    exact absurd (List.length_take_le n _) (not_le.mpr hlen)

/-- The query renders its rows. Where the limit is exact, it is in the order of SQL exactly if its
filters work in time; a query all of whose predicates are expressions is, exactly if the limit is
exact and the predicates hold for all rows within it. -/
theorem join_where_limit_iff (sat : FilterExpr → Row → Bool)
    (hsize : lefts.length * (rights.length + 1) + rights.length < usizeMax) (n : Nat)
    (filters : List FilterExpr) :
    (∀ projection, lowerJoin A W lefts rights on joinType (some n) projection filters
      = (lowerJoinRows A W lefts rights on joinType (some n) filters).map
          fun rows => mapsToResult (applyProjection rows projection)) ∧
    (LimitExact A.fmt lefts rights on joinType n →
      (SqlOrder A W sat lefts rights on joinType n filters ↔
        ∃ decoded, postFilters W filters = .ok decoded ∧
          FilteredInTime A sat n filters decoded (joinedRows A.fmt lefts rights on joinType))) ∧
    ((∀ predicate ∈ filters, ∃ q, convertFilter W predicate = .ok (.inr q)) →
      (SqlOrder A W sat lefts rights on joinType n filters ↔
        LimitExact A.fmt lefts rights on joinType n ∧
          ∀ row ∈ (joinedRows A.fmt lefts rights on joinType).take n, ∀ predicate ∈ filters,
            sat predicate row)) :=
  ⟨fun projection => lowerJoin_eq (some n) projection filters,
    sqlOrder_iff_of_limitExact sat hsize filters, sqlOrder_iff_of_exprs sat hsize⟩

end Query

section Runs

/-- Filters are written as an empty list of scan filters. -/
def plainWhere : WhereApi SqlExpr Unit where
  convertSqlExpr := .ok
  decimalText units _ := toString units
  parseF64 _ := none
  encode _ := .ok [0x90]
  decode _ := .ok []

def likeX : FilterExpr := .expr (.function "like" [.column "a", .literal (.string "x%")])

/-- LIKE 'x%' on the values x and y. -/
def startsWithX (_ : FilterExpr) (row : Row) : Bool :=
  match row.get "a" with
  | some (.string s) => s = "x"
  | _ => false

/-- A left join limited to its first row, which satisfies the dropped predicate; the second does
not. -/
theorem left_join_limit : SqlOrder countApi plainWhere startsWithX
    [cellRow "a" (.string "x"), cellRow "a" (.string "y")] [cellRow "b" (.string "x")] [("a", "b")]
    .left 1 [likeX] := by
  refine ((join_where_limit_iff startsWithX (by decide) 1 [likeX]).2.2 ?_).mpr
    ⟨⟨fun h => absurd h (by decide), fun _ htype => absurd htype (by decide)⟩, ?_⟩
  · intro predicate hpredicate
    obtain rfl := List.mem_singleton.mp hpredicate
    exact ⟨_, rfl⟩
  · decide +kernel

/-- An expression predicate that no row satisfies is dropped, and the row is returned. -/
theorem where_expression_dropped : ¬ SqlOrder countApi plainWhere (fun _ _ => false)
    [cellRow "a" (.string "x")] [cellRow "b" (.string "x")] [("a", "b")] .inner 1 [likeX] := by
  rintro ⟨rows, full, hrows, -, rfl⟩
  have hrow : lowerJoinRows countApi plainWhere [cellRow "a" (.string "x")]
      [cellRow "b" (.string "x")] [("a", "b")] .inner (some 1) [likeX] =
        .ok [SortedMap.ofList [("a", .string "x"), ("b", .string "x")]] := rfl
  have hnone := Except.ok.inj (hrow.symm.trans hrows)
  simp at hnone

end Runs

end NodedbLite.Query
