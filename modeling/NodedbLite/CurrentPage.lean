import NodedbLite.DocBackfillPaging

/-! Pages of current documents. A page of pointers is read under the budgets, and the row of each
pointer under what the pointers and rows before it leave of the bytes; the first document that does
not fit ends the page, or fails the call if the page is still empty. -/
namespace NodedbLite.Document

open Storage

/-- What a body decodes to. -/
inductive BodyValue (F : Type)
  | object (fields : F)
  | other (typeName : String)

/-- Storage namespaces, the decoder of bodies and the texts of the library's errors. -/
structure CurrentEnv (F : Type) where
  sp : DocSpaces
  valueFromMsgpack : Bytes → Except String (BodyValue F)
  emptyFields : F
  utf8Error : Bytes → String
  parseIntError : String → String

structure CurrentDocumentPage (F : Type) where
  entries : List (Bytes × String × F)
  lastKey : Option Bytes

section Model

variable {F : Type} (env : CurrentEnv F) (t : Tree) (collection : String)

def invalid (detail : String) : LiteError :=
  .serialization ("current history for '" ++ collection ++ "': " ++ detail)

/-- The document, the time and the history key that a pointer names. -/
def readPointer (row : KvPair) : Except LiteError (String × Int × Bytes) :=
  let docId := row.1.drop (collPrefix collection).length
  match Bytes.toString? docId with
  | none => .error (invalid collection ("pointer ID is not UTF-8: " ++ env.utf8Error docId))
  | some id =>
    match Bytes.toString? row.2 with
    | none => .error (invalid collection ("pointer is not UTF-8: " ++ env.utf8Error row.2))
    | some text =>
      match Digits.decodeSigned 64 (Bytes.ofString (trim text)) with
      | none => .error (invalid collection
          ("pointer timestamp for '" ++ id ++ "': " ++ env.parseIntError (trim text)))
      | some timestamp => do
        let historyKey ← versionedDocKey collection id timestamp
        .ok (id, timestamp, historyKey)

def bodyFields (id : String) (body : Bytes) : Except LiteError F :=
  if body = [] then .ok env.emptyFields
  else
    match env.valueFromMsgpack body with
    | .error error => .error (invalid collection ("current document '" ++ id ++ "': " ++ error))
    | .ok (.object fields) => .ok fields
    | .ok (.other typeName) => .error (invalid collection
        ("current document '" ++ id ++ "' is " ++ typeName ++ ", expected object"))

/-- The document of a pointer, added to the page. -/
def addCurrent (page : CurrentDocumentPage F) (key : Bytes) (id : String) (value : Bytes) :
    Except LiteError (CurrentDocumentPage F) := do
  let version ← decodeValue value
  if version.isLive then
    let fields ← bodyFields env collection id version.body
    .ok ⟨page.entries ++ [(key, id, fields)], some key⟩
  else .ok { page with lastKey := some key }

/-- The loop over the pointers of a page. -/
def currentRows (maxBytes : Nat) :
    List KvPair → CurrentDocumentPage F → Nat → Except LiteError (CurrentDocumentPage F)
  | [], page, _ => .ok page
  | row :: rows, page, used => do
    let (id, timestamp, historyKey) ← readPointer env collection row
    let pointerBytes := saturatingAdd row.1.length row.2.length
    match scanBudgeted t env.sp.documentHistory historyKey none 1 (maxBytes - used - pointerBytes)
        true with
    | .error (.backpressure pfx afterKey budget plaintext) =>
      if page.lastKey.isSome then .ok page
      else .error (.scan (.backpressure pfx afterKey budget plaintext))
    | .error e => .error (.scan e)
    | .ok history =>
      match history.entries.head?.filter (fun row => row.1 = historyKey) with
      | none => .error (invalid collection ("pointer for '" ++ id ++ "' names missing history row "
          ++ toString timestamp))
      | some (storedKey, value) => do
        let used := saturatingAdd (saturatingAdd (saturatingAdd used pointerBytes) storedKey.length)
          value.length
        let page ← addCurrent env collection page row.1 id value
        currentRows maxBytes rows page used

def currentDocumentPage (afterKey : Option Bytes) (maxRecords maxBytes : Nat) :
    Except LiteError (CurrentDocumentPage F) :=
  match scanBudgeted t env.sp.latestVersion (collPrefix collection) afterKey maxRecords maxBytes
      true with
  | .error e => .error (.scan e)
  | .ok pointers => currentRows env t collection maxBytes pointers.entries ⟨[], none⟩ 0

/-- The calls of a rebuild, each from the last key of the one before, with a bound on their
number. -/
def currentPages (maxRecords maxBytes : Nat) :
    Nat → Option Bytes → Option (Except LiteError (List (Bytes × String × F)))
  | 0, _ => none
  | fuel + 1, cursor =>
    match currentDocumentPage env t collection cursor maxRecords maxBytes with
    | .error e => some (.error e)
    | .ok page =>
      match page.lastKey with
      | none => some (.ok [])
      | some lastKey =>
        (currentPages maxRecords maxBytes fuel (some lastKey)).map
          (fun rest => rest.map (fun entries => page.entries ++ entries))

end Model

/-- The fields of a body that is an object. -/
def HasFields {F : Type} (env : CurrentEnv F) (body : Bytes) (fields : F) : Prop :=
  body = [] ∧ fields = env.emptyFields ∨
    body ≠ [] ∧ env.valueFromMsgpack body = .ok (.object fields)

/-- A document whose newest version is live. -/
structure Current (sp : DocSpaces) (t : Tree) (c d : String) (s : Int) (v : DecodedVersion) :
    Prop extends Newest sp t c d s v where
  docId : (0 : UInt8) ∉ Bytes.ofString d
  live : v.isLive = true

/-- The bytes a document takes in a page: its pointer and its row. -/
def documentBytes (c d : String) (s : Int) (v : DecodedVersion) : Nat :=
  rowBytes (latestVersionKey c d, formatSysFrom s) + rowBytes (historyKey c d s, encodeValue v)

/-- Keys and values are vectors. -/
def Allocated (t : Tree) : Prop :=
  ∀ ns key value, getRows t ns key = some value → key.length ≤ isizeMax ∧ value.length ≤ isizeMax

/-- The pointers of a collection agree with its history. -/
structure PointersAgree (sp : DocSpaces) (c : String) (t : Tree) : Prop where
  pointer : ∀ key value, (key, value) ∈ scanPrefixRows t sp.latestVersion (collPrefix c) ↔
    ∃ d s v, Current sp t c d s v ∧ key = latestVersionKey c d ∧ value = formatSysFrom s
  allocated : Allocated t

/-- What is shown of a document. -/
structure Shown (F : Type) where
  docId : String
  time : Int
  version : DecodedVersion
  fields : F

def Shown.bytes {F : Type} (c : String) (x : Shown F) : Nat :=
  documentBytes c x.docId x.time x.version

/-- The pointer of a document that is shown. -/
structure Names {F : Type} (env : CurrentEnv F) (t : Tree) (c : String) (row : KvPair)
    (x : Shown F) : Prop where
  current : Current env.sp t c x.docId x.time x.version
  eq : row = (latestVersionKey c x.docId, formatSysFrom x.time)
  fields : HasFields env x.version.body x.fields

section Rows

variable {F : Type} {env : CurrentEnv F} {t : Tree} {c : String} {row : KvPair} {x : Shown F}
  {maxBytes : Nat}

lemma Names.readPointer (h : Names env t c row x) :
    Document.readPointer env c row = .ok (x.docId, x.time, historyKey c x.docId x.time) := by
  obtain ⟨text, htext, htrim⟩ := formatSysFrom_text x.time
  have hdrop : row.1.drop (collPrefix c).length = Bytes.ofString x.docId := by
    rw [h.eq, collPrefix, latestVersionKey, List.length_append, ← List.drop_drop, List.drop_left]
    rfl
  have htime : row.2 = formatSysFrom x.time := by rw [h.eq]
  unfold Document.readPointer
  dsimp only
  rw [hdrop, htime, Bytes.toString?_ofString, htext]
  dsimp only
  rw [htrim, decode_formatSysFrom h.current.time]
  dsimp only
  rw [versionedDocKey_eq h.current.docId]
  rfl

lemma Names.addCurrent (h : Names env t c row x) (page : CurrentDocumentPage F) :
    Document.addCurrent env c page row.1 x.docId (encodeValue x.version)
      = .ok ⟨page.entries ++ [(row.1, x.docId, x.fields)], some row.1⟩ := by
  have hfields : bodyFields env c x.docId x.version.body = .ok x.fields := by
    unfold bodyFields
    rcases h.fields with ⟨hempty, hfields⟩ | ⟨hne, hvalue⟩
    · rw [if_pos hempty, hfields]
    · rw [if_neg hne, hvalue]
  unfold Document.addCurrent
  rw [decodeValue_encodeValue h.current.typed]
  change (if x.version.isLive = true then _ else _) = _
  rw [if_pos h.current.live, hfields]
  rfl

lemma Names.currentRows (h : Names env t c row x)
    (halloc : Allocated t) (hrow : row.1.length ≤ isizeMax ∧ row.2.length ≤ isizeMax)
    (hbytes : maxBytes ≤ usizeMax) (rows : List KvPair) (page : CurrentDocumentPage F)
    (used : Nat) :
    (used + x.bytes c ≤ maxBytes →
      Document.currentRows env t c maxBytes (row :: rows) page used
        = Document.currentRows env t c maxBytes rows
          ⟨page.entries ++ [(row.1, x.docId, x.fields)], some row.1⟩ (used + x.bytes c)) ∧
    (maxBytes < used + x.bytes c →
      (page.lastKey.isSome = true →
        Document.currentRows env t c maxBytes (row :: rows) page used = .ok page) ∧
      (page.lastKey = none →
        ∃ e, Document.currentRows env t c maxBytes (row :: rows) page used = .error e)) := by
  have hstored := h.current.row
  obtain ⟨hkey, hvalue⟩ := halloc _ _ _ hstored
  obtain ⟨rest, hscan⟩ := scanPrefixRows_self hstored
  have hpast : rowsPast none (scanPrefixRows t env.sp.documentHistory
      (historyKey c x.docId x.time)) = (historyKey c x.docId x.time, encodeValue x.version)
        :: rest := by
    rw [hscan]
    simp [rowsPast]
  have hcost : x.bytes c = row.1.length + row.2.length
      + ((historyKey c x.docId x.time).length + (encodeValue x.version).length) := by
    rw [h.eq]
    rfl
  have hpointer : saturatingAdd row.1.length row.2.length = row.1.length + row.2.length := by
    unfold saturatingAdd usizeMax
    unfold isizeMax at hrow
    omega
  have hpositive : 0 < (historyKey c x.docId x.time).length := by
    simp [historyKey, docPrefix]
  have hrow' : rowBytes (historyKey c x.docId x.time, encodeValue x.version)
      = (historyKey c x.docId x.time).length + (encodeValue x.version).length := rfl
  have hremaining : maxBytes - used - (row.1.length + row.2.length) ≤ usizeMax := by omega
  constructor
  · intro hfits
    have hallocated : rowBytes (historyKey c x.docId x.time, encodeValue x.version) < usizeMax := by
      unfold usizeMax
      unfold isizeMax at hkey hvalue
      omega
    obtain ⟨others, limit, hok, _⟩ := @scanBudgeted_page _ _ _ none 0 _ _ _ hremaining rfl hpast
      (by omega) hallocated
    have hsum : saturatingAdd (saturatingAdd (saturatingAdd used (row.1.length + row.2.length))
        (historyKey c x.docId x.time).length) (encodeValue x.version).length
          = used + x.bytes c := by
      have hle : used + x.bytes c ≤ usizeMax := hfits.trans hbytes
      have hexact : ∀ a b : Nat, a + b ≤ usizeMax → saturatingAdd a b = a + b :=
        fun a b h => min_eq_left h
      rw [hcost] at hle ⊢
      rw [hexact used _ (by omega), hexact (used + _) _ (by omega), hexact (used + _ + _) _ (by omega)]
      omega
    rw [Document.currentRows, h.readPointer]
    dsimp only [bind, Except.bind]
    rw [hpointer, hok]
    dsimp only
    rw [List.head?_cons, Option.filter_some, if_pos (by simp)]
    dsimp only
    rw [hsum, h.addCurrent]
  · intro hlarge
    have herror := @scanBudgeted_reject _ _ _ none 0 _ _ _ hremaining rfl hpast (by omega)
    rw [Document.currentRows, h.readPointer]
    dsimp only [bind, Except.bind]
    rw [hpointer, herror]
    dsimp only
    constructor
    · intro hsome
      rw [if_pos hsome]
    · intro hnone
      rw [hnone]
      exact ⟨_, rfl⟩

end Rows

section Pages

variable {F : Type} {env : CurrentEnv F} {t : Tree} {c : String} {page : CurrentDocumentPage F}
  {rows : List KvPair} {maxRecords maxBytes used : Nat} {shows : KvPair → Shown F}

/-- The entry of a pointer in a page. -/
def entryOf (shows : KvPair → Shown F) (row : KvPair) : Bytes × String × F :=
  (row.1, (shows row).docId, (shows row).fields)

lemma currentRows_fit (hnames : ∀ row ∈ rows, Names env t c row (shows row))
    (halloc : Allocated t)
    (hrows : ∀ row ∈ rows, row.1.length ≤ isizeMax ∧ row.2.length ≤ isizeMax)
    (hbytes : maxBytes ≤ usizeMax) (hlast : page.lastKey.isSome = true) :
    currentRows env t c maxBytes rows page used = .ok
      (let taken := (BudgetScan.fit (fun row => (shows row).bytes c) maxBytes none rows used).1
      ⟨page.entries ++ taken.map (entryOf shows),
        (taken.getLast?.map Prod.fst).or page.lastKey⟩) := by
  induction rows generalizing page used with
  | nil => simp [currentRows, BudgetScan.fit]
  | cons row rows ih =>
    obtain ⟨hfits, hlarge⟩ := (hnames row List.mem_cons_self).currentRows halloc
      (hrows row List.mem_cons_self) hbytes rows page used
    by_cases hfit : used + (shows row).bytes c ≤ maxBytes
    · rw [hfits hfit, ih (fun r hr => hnames r (List.mem_cons_of_mem _ hr))
        (fun r hr => hrows r (List.mem_cons_of_mem _ hr)) rfl, BudgetScan.fit, if_pos hfit]
      dsimp only
      rw [List.getLast?_cons, List.map_cons, entryOf, List.append_assoc, List.singleton_append]
      congr 2
      cases (BudgetScan.fit (fun row => (shows row).bytes c) maxBytes none rows
        (used + (shows row).bytes c)).1.getLast? <;> rfl
    · rw [(hlarge (not_le.mp hfit)).1 hlast, BudgetScan.fit, if_neg hfit]
      simp

/-- One call: nothing is left, or the first document does not fit, or the page has it and some of
the documents after it. -/
lemma currentDocumentPage_cases (halloc : Allocated t) (hbytes : maxBytes ≤ usizeMax)
    {cursor : Option Bytes} {rest : List KvPair}
    (hcursor : cursor.all (fun key => (collPrefix c).isPrefixOf key) = true)
    (hrest : rowsPast cursor (scanPrefixRows t env.sp.latestVersion (collPrefix c)) = rest)
    (hnames : ∀ row ∈ rest, Names env t c row (shows row)) :
    match rest with
    | [] => currentDocumentPage env t c cursor (maxRecords + 1) maxBytes = .ok ⟨[], none⟩
    | row :: rest =>
      (maxBytes < (shows row).bytes c →
        ∃ e, currentDocumentPage env t c cursor (maxRecords + 1) maxBytes = .error e) ∧
      ((shows row).bytes c ≤ maxBytes → ∃ taken later, row :: rest = taken ++ later ∧ taken ≠ [] ∧
        (∀ r ∈ taken, (shows r).bytes c ≤ maxBytes) ∧
        currentDocumentPage env t c cursor (maxRecords + 1) maxBytes
          = .ok ⟨taken.map (entryOf shows), taken.getLast?.map Prod.fst⟩) := by
  have hrows : ∀ row ∈ rest, row.1.length ≤ isizeMax ∧ row.2.length ≤ isizeMax := by
    intro row hrow
    rw [← hrest] at hrow
    exact halloc _ _ _ (mem_scanPrefixRows.mp (List.mem_filter.mp hrow).1).1
  unfold currentDocumentPage
  cases rest with
  | nil =>
    dsimp only
    rw [scanBudgeted_nil hbytes hcursor hrest]
    rfl
  | cons row rest =>
    have hname := hnames row List.mem_cons_self
    have hrow := hrows row List.mem_cons_self
    have hpointer : rowBytes row ≤ (shows row).bytes c := by
      have heq := congrArg rowBytes hname.eq
      unfold Shown.bytes documentBytes
      omega
    have hsmall : rowBytes row < usizeMax := by
      unfold rowBytes usizeMax
      unfold isizeMax at hrow
      omega
    dsimp only
    by_cases hscan : rowBytes row ≤ maxBytes
    · obtain ⟨others, limit, hok, hothers, _⟩ := @scanBudgeted_page _ _ _ cursor maxRecords _ _ _
        hbytes hcursor hrest hscan hsmall
      have hnames' : ∀ r ∈ others, Names env t c r (shows r) :=
        fun r hr => hnames r (List.mem_cons_of_mem _ (hothers.subset hr))
      have hrows' : ∀ r ∈ others, r.1.length ≤ isizeMax ∧ r.2.length ≤ isizeMax :=
        fun r hr => hrows r (List.mem_cons_of_mem _ (hothers.subset hr))
      obtain ⟨hfits, hlarge⟩ := hname.currentRows halloc hrow hbytes others ⟨[], none⟩ 0
      rw [Nat.zero_add] at hfits hlarge
      rw [hok]
      dsimp only
      refine ⟨fun hover => (hlarge hover).2 rfl, fun hfit => ?_⟩
      rw [hfits hfit, currentRows_fit hnames' halloc hrows' hbytes rfl]
      obtain ⟨later, hlater⟩ := (@BudgetScan.fit_isPrefix _ (fun row => (shows row).bytes c) maxBytes
        none others ((shows row).bytes c)).trans hothers
      have hsizes : ∀ r ∈ (BudgetScan.fit (fun row => (shows row).bytes c) maxBytes none others
          ((shows row).bytes c)).1, (shows row).bytes c + (shows r).bytes c ≤ maxBytes :=
        fun r hr => @BudgetScan.size_le_of_mem_fit _ (fun row => (shows row).bytes c) _ _ _ _ _ hr
      dsimp only
      generalize (BudgetScan.fit (fun row => (shows row).bytes c) maxBytes none others
        ((shows row).bytes c)).1 = taken at hlater hsizes ⊢
      refine ⟨row :: taken, later, by rw [List.cons_append, hlater], List.cons_ne_nil _ _, ?_, ?_⟩
      · intro r hr
        rcases List.mem_cons.mp hr with rfl | hr
        · exact hfit
        · exact le_of_add_le_right (hsizes r hr)
      · rw [List.getLast?_cons, List.map_cons, entryOf, List.nil_append, List.singleton_append]
        cases taken.getLast? <;> rfl
    · rw [scanBudgeted_reject hbytes hcursor hrest (not_le.mp hscan)]
      exact ⟨fun _ => ⟨_, rfl⟩, fun hfit => absurd (hpointer.trans hfit) hscan⟩

lemma currentPages_run (halloc : Allocated t) (hbytes : maxBytes ≤ usizeMax)
    (hnames : ∀ row ∈ scanPrefixRows t env.sp.latestVersion (collPrefix c),
      Names env t c row (shows row))
    {fuel : Nat} {seen rest : List KvPair}
    (hsplit : scanPrefixRows t env.sp.latestVersion (collPrefix c) = seen ++ rest)
    (hfuel : rest.length < fuel) :
    ((∀ row ∈ rest, (shows row).bytes c ≤ maxBytes) →
      currentPages env t c (maxRecords + 1) maxBytes fuel (seen.getLast?.map Prod.fst)
        = some (.ok (rest.map (entryOf shows)))) ∧
    ((∃ row ∈ rest, maxBytes < (shows row).bytes c) →
      ∃ e, currentPages env t c (maxRecords + 1) maxBytes fuel (seen.getLast?.map Prod.fst)
        = some (.error e)) := by
  induction fuel generalizing seen rest with
  | zero => omega
  | succ fuel ih =>
    have hsorted := scanPrefixRows_sorted t env.sp.latestVersion (collPrefix c)
    rw [hsplit] at hsorted
    have hpast : rowsPast (seen.getLast?.map Prod.fst)
        (scanPrefixRows t env.sp.latestVersion (collPrefix c)) = rest := by
      rw [hsplit, rowsPast_append hsorted]
    have hunder : (seen.getLast?.map Prod.fst).all (fun key => (collPrefix c).isPrefixOf key)
        = true := by
      cases hlast : seen.getLast? with
      | none => rfl
      | some row =>
        have hmem : row ∈ scanPrefixRows t env.sp.latestVersion (collPrefix c) :=
          hsplit ▸ List.mem_append_left _ (List.mem_of_getLast? hlast)
        simpa using (mem_scanPrefixRows.mp hmem).2
    have hnames' : ∀ row ∈ rest, Names env t c row (shows row) :=
      fun row hrow => hnames row (hsplit ▸ List.mem_append_right _ hrow)
    have hpage := @currentDocumentPage_cases _ _ _ _ maxRecords _ _ halloc hbytes _ _ hunder hpast
      hnames'
    unfold currentPages
    cases rest with
    | nil =>
      rw [hpage]
      refine ⟨fun _ => rfl, ?_⟩
      rintro ⟨row, hrow, _⟩
      cases hrow
    | cons row rest =>
      obtain ⟨herror, hok⟩ := hpage
      by_cases hfit : (shows row).bytes c ≤ maxBytes
      · obtain ⟨taken, later, hrest, hne, hsizes, hcall⟩ := hok hfit
        rw [hrest] at hsplit hfuel ⊢
        have hlater : later.length < fuel := by
          have hpos := List.length_pos_iff.mpr hne
          rw [List.length_append] at hfuel
          omega
        obtain ⟨hend, hfail⟩ := ih (hsplit.trans (List.append_assoc ..).symm) hlater
        have hcursor : (seen ++ taken).getLast?.map Prod.fst = taken.getLast?.map Prod.fst := by
          rw [List.getLast?_append, List.getLast?_eq_some_getLast hne]
          rfl
        have hkey : taken.getLast?.map Prod.fst = some (taken.getLast hne).1 := by
          rw [List.getLast?_eq_some_getLast hne]
          rfl
        rw [hcursor, hkey] at hend hfail
        rw [hcall, hkey]
        dsimp only
        constructor
        · intro hall
          rw [hend (fun r hr => hall r (List.mem_append_right _ hr)), List.map_append]
          rfl
        · rintro ⟨r, hr, hlarge⟩
          rcases List.mem_append.mp hr with hr | hr
          · exact absurd (hsizes r hr) (not_le.mpr hlarge)
          · obtain ⟨e, he⟩ := hfail ⟨r, hr, hlarge⟩
            exact ⟨e, by rw [he]; rfl⟩
      · obtain ⟨e, he⟩ := herror (not_le.mp hfit)
        rw [he]
        exact ⟨fun hall => absurd (hall row List.mem_cons_self) hfit, fun _ => ⟨e, rfl⟩⟩

end Pages

lemma Newest.unique {sp : DocSpaces} {t : Tree} {c d : String} {s s' : Int} {v v' : DecodedVersion}
    (h : Newest sp t c d s v) (h' : Newest sp t c d s' v') : s = s' ∧ v = v' := by
  obtain rfl : s = s' := le_antisymm (h'.newest s _ h.time h.row) (h.newest s' _ h'.time h'.row)
  have hvalue := Option.some.inj (h.row.symm.trans h'.row)
  have hdecoded := congrArg decodeValue hvalue
  rw [decodeValue_encodeValue h.typed, decodeValue_encodeValue h'.typed] at hdecoded
  exact ⟨rfl, Except.ok.inj hdecoded⟩

lemma HasFields.unique {F : Type} {env : CurrentEnv F} {body : Bytes} {f g : F}
    (hf : HasFields env body f) (hg : HasFields env body g) : f = g := by
  rcases hf with ⟨hnil, rfl⟩ | ⟨hne, hf⟩
  · rcases hg with ⟨_, rfl⟩ | ⟨hne, _⟩
    · rfl
    · exact absurd hnil hne
  · rcases hg with ⟨hnil, _⟩ | ⟨_, hg⟩
    · exact absurd hnil hne
    · rw [hf] at hg
      exact BodyValue.object.inj (Except.ok.inj hg)

/-- The calls give every live document once, with its current body, if each alone fits into the
byte budget, and end in an error if one does not. -/
theorem current_pages_exact {F : Type} (env : CurrentEnv F) {t : Tree} {c : String}
    (h : PointersAgree env.sp c t)
    (hbodies : ∀ d s v, Current env.sp t c d s v → ∃ fields, HasFields env v.body fields)
    {maxRecords maxBytes fuel : Nat} (hrecords : 0 < maxRecords) (hbytes : maxBytes ≤ usizeMax)
    (hfuel : (scanPrefixRows t env.sp.latestVersion (collPrefix c)).length < fuel) :
    ((∀ d s v, Current env.sp t c d s v → documentBytes c d s v ≤ maxBytes) →
      ∃ entries, currentPages env t c maxRecords maxBytes fuel none = some (.ok entries) ∧
        (entries.map (fun e => e.2.1)).Nodup ∧
        ∀ key d fields, (key, d, fields) ∈ entries ↔ key = latestVersionKey c d ∧
          ∃ s v, Current env.sp t c d s v ∧ HasFields env v.body fields) ∧
    ((∃ d s v, Current env.sp t c d s v ∧ maxBytes < documentBytes c d s v) →
      ∃ e, currentPages env t c maxRecords maxBytes fuel none = some (.error e)) := by
  have hnamed : ∀ row ∈ scanPrefixRows t env.sp.latestVersion (collPrefix c),
      ∃ x, Names env t c row x := by
    rintro ⟨key, value⟩ hrow
    obtain ⟨d, s, v, hcurrent, rfl, rfl⟩ := (h.pointer key value).mp hrow
    obtain ⟨fields, hfields⟩ := hbodies d s v hcurrent
    exact ⟨⟨d, s, v, fields⟩, hcurrent, rfl, hfields⟩
  have hpointer : ∀ d s v, Current env.sp t c d s v → (latestVersionKey c d, formatSysFrom s) ∈
      scanPrefixRows t env.sp.latestVersion (collPrefix c) :=
    fun d s v hcurrent => (h.pointer _ _).mpr ⟨d, s, v, hcurrent, rfl, rfl⟩
  have hnonempty : Nonempty (Shown F) := ⟨⟨"", 0, ⟨.live, 0, 0, []⟩, env.emptyFields⟩⟩
  choose! shows hshows using hnamed
  obtain ⟨n, rfl⟩ := Nat.exists_eq_succ_of_ne_zero hrecords.ne'
  obtain ⟨hend, herror⟩ := @currentPages_run _ _ _ _ n _ _ h.allocated hbytes hshows _ [] _
    (List.nil_append _).symm hfuel
  have hid : ∀ d s v, Current env.sp t c d s v →
      (shows (latestVersionKey c d, formatSysFrom s)).docId = d ∧
        (shows (latestVersionKey c d, formatSysFrom s)).time = s ∧
        (shows (latestVersionKey c d, formatSysFrom s)).version = v := by
    intro d s v hcurrent
    have hname := hshows _ (hpointer d s v hcurrent)
    have hsame := latestVersionKey_injective c (Prod.mk.inj hname.eq).1
    have hcurrent' := hname.current.toNewest
    rw [← hsame] at hcurrent'
    obtain ⟨htime, hversion⟩ := hcurrent'.unique hcurrent.toNewest
    exact ⟨hsame.symm, htime, hversion⟩
  constructor
  · intro hall
    refine ⟨_, hend (fun row hrow => hall _ _ _ (hshows row hrow).current), ?_, ?_⟩
    · rw [List.map_map, List.Nodup, List.pairwise_map]
      apply (scanPrefixRows_sorted t env.sp.latestVersion (collPrefix c)).imp_of_mem
      intro a b ha hb hlt hsame
      have hkey : a.1 = b.1 := by
        rw [(hshows a ha).eq, (hshows b hb).eq]
        exact congrArg (latestVersionKey c) hsame
      exact absurd (hkey ▸ hlt) (lt_irrefl _)
    · intro key d fields
      constructor
      · intro hmem
        obtain ⟨row, hrow, heq⟩ := List.mem_map.mp hmem
        obtain ⟨rfl, hrest⟩ := Prod.mk.inj heq
        obtain ⟨rfl, rfl⟩ := Prod.mk.inj hrest
        have hname := hshows row hrow
        exact ⟨(congrArg Prod.fst hname.eq), _, _, hname.current, hname.fields⟩
      · rintro ⟨rfl, s, v, hcurrent, hfields⟩
        have hrow := hpointer d s v hcurrent
        obtain ⟨hdoc, _, hversion⟩ := hid d s v hcurrent
        have hsame := (hversion ▸ (hshows _ hrow).fields).unique hfields
        refine List.mem_map.mpr ⟨_, hrow, ?_⟩
        rw [entryOf, hdoc, hsame]
  · rintro ⟨d, s, v, hcurrent, hlarge⟩
    refine herror ⟨_, hpointer d s v hcurrent, ?_⟩
    obtain ⟨hdoc, htime, hversion⟩ := hid d s v hcurrent
    rw [Shown.bytes, hdoc, htime, hversion]
    exact hlarge

section Sample

def bodyVersion (body : UInt8) : DecodedVersion := ⟨.live, 3, 0, [body]⟩

/-- Two documents and their bodies. -/
def bodies : List (String × UInt8) := [("a", 1), ("b", 2)]

def twoDocuments : Tree :=
  bodies.foldl (fun t p => putRows (putRows t docSpaces.documentHistory (historyKey "c" p.1 3)
    (encodeValue (bodyVersion p.2))) docSpaces.latestVersion (latestVersionKey "c" p.1)
    (formatSysFrom 3)) SortedMap.empty

/-- A body of one byte is an object, and the byte stands for its fields. -/
def byteEnv : CurrentEnv UInt8 where
  sp := docSpaces
  valueFromMsgpack
    | [byte] => .ok (.object byte)
    | _ => .error "no body"
  emptyFields := 0
  utf8Error _ := ""
  parseIntError _ := ""

lemma inI64_of_small {n : Int} (hlow : 0 ≤ n) (hhigh : n ≤ 3) : InI64 n := by
  unfold InI64 i64Max
  omega

lemma bodyVersion_typed (body : UInt8) : (bodyVersion body).Typed :=
  have hthree : InI64 3 := inI64_of_small (by decide) (by decide)
  have hzero : InI64 0 := inI64_of_small (by decide) (by decide)
  ⟨hthree, hzero⟩

lemma named_bodies : ∀ p ∈ bodies, Named "c" p.1 := by
  rintro p hp
  rcases List.mem_pair.mp hp with rfl | rfl <;> exact ⟨by decide +kernel, by decide +kernel⟩

lemma mem_twoDocuments {ns : Namespace} {key value : Bytes} :
    getRows twoDocuments ns key = some value ↔ ∃ p ∈ bodies,
      (ns = docSpaces.documentHistory ∧ key = historyKey "c" p.1 3 ∧
        value = encodeValue (bodyVersion p.2)) ∨
      ns = docSpaces.latestVersion ∧ key = latestVersionKey "c" p.1 ∧ value = formatSysFrom 3 := by
  have hentries : twoDocuments.entries.Perm (bodies.flatMap fun p =>
      [(prefixKey docSpaces.documentHistory (historyKey "c" p.1 3), encodeValue (bodyVersion p.2)),
        (prefixKey docSpaces.latestVersion (latestVersionKey "c" p.1), formatSysFrom 3)]) := by
    decide +kernel
  rw [getRows, SortedMap.get_eq_some_iff, hentries.mem_iff, List.mem_flatMap]
  simp only [List.mem_cons, Prod.mk.injEq, prefixKey_inj, List.not_mem_nil, or_false, and_assoc]

lemma current_twoDocuments {d : String} {s : Int} {v : DecodedVersion} :
    Current docSpaces twoDocuments "c" d s v ↔
      ∃ p ∈ bodies, d = p.1 ∧ s = 3 ∧ v = bodyVersion p.2 := by
  have hkeys : ∀ {d s value}, (0 : UInt8) ∉ Bytes.ofString d → InI64 s →
      getRows twoDocuments docSpaces.documentHistory (historyKey "c" d s) = some value →
      ∃ p ∈ bodies, d = p.1 ∧ s = 3 ∧ value = encodeValue (bodyVersion p.2) := by
    intro d s value hd hs hrow
    obtain ⟨p, hp, ⟨-, hkey, hvalue⟩ | ⟨hns, -⟩⟩ := mem_twoDocuments.mp hrow
    · have hname := named_bodies p hp
      obtain ⟨-, hdoc, htime⟩ := historyKey_inj ⟨hname.collection, hd⟩ hname hs
        (inI64_of_small (by decide) (by decide)) hkey
      exact ⟨p, hp, hdoc, htime, hvalue⟩
    · exact absurd hns docSpaces.ne
  constructor
  · intro h
    obtain ⟨p, hp, hdoc, htime, hvalue⟩ := hkeys h.docId h.time h.row
    have hdecoded := congrArg decodeValue hvalue
    rw [decodeValue_encodeValue h.typed, decodeValue_encodeValue (bodyVersion_typed p.2)] at hdecoded
    exact ⟨p, hp, hdoc, htime, Except.ok.inj hdecoded⟩
  · rintro ⟨p, hp, rfl, rfl, rfl⟩
    have hname := named_bodies p hp
    refine ⟨⟨inI64_of_small (by decide) (by decide), bodyVersion_typed p.2,
      mem_twoDocuments.mpr ⟨p, hp, .inl ⟨rfl, rfl, rfl⟩⟩, ?_⟩, hname.docId, rfl⟩
    intro s' value hs' hrow
    obtain ⟨-, -, -, htime, -⟩ := hkeys hname.docId hs' hrow
    exact htime.le

lemma pointersAgree_twoDocuments : PointersAgree docSpaces "c" twoDocuments := by
  constructor
  · intro key value
    rw [mem_scanPrefixRows, mem_twoDocuments]
    constructor
    · rintro ⟨⟨p, hp, ⟨hns, -⟩ | ⟨-, rfl, rfl⟩⟩, -⟩
      · exact absurd hns.symm docSpaces.ne
      · exact ⟨p.1, 3, _, current_twoDocuments.mpr ⟨p, hp, rfl, rfl, rfl⟩, rfl, rfl⟩
    · rintro ⟨d, s, v, hcurrent, rfl, rfl⟩
      obtain ⟨p, hp, rfl, rfl, -⟩ := current_twoDocuments.mp hcurrent
      refine ⟨⟨p, hp, .inr ⟨rfl, rfl, rfl⟩⟩, ?_⟩
      rcases List.mem_pair.mp hp with rfl | rfl <;> decide +kernel
  · intro ns key value hrow
    unfold isizeMax
    obtain ⟨p, hp, ⟨-, rfl, rfl⟩ | ⟨-, rfl, rfl⟩⟩ := mem_twoDocuments.mp hrow <;>
      rcases List.mem_pair.mp hp with rfl | rfl <;> decide +kernel

/-- A budget that holds either document but not both: the first page ends between them, and the calls
list both. Under a budget that holds neither they fail. -/
theorem current_pages_exact_two :
    (currentDocumentPage byteEnv twoDocuments "c" none 2 100).toOption.map
        (fun page => page.entries.map fun e => e.2.1) = some ["a"] ∧
    (∃ entries, currentPages byteEnv twoDocuments "c" 2 100 3 none = some (.ok entries) ∧
      ∀ p ∈ bodies, (latestVersionKey "c" p.1, p.1, p.2) ∈ entries) ∧
    ∃ e, currentPages byteEnv twoDocuments "c" 2 50 3 none = some (.error e) := by
  have hbodies : ∀ d s v, Current docSpaces twoDocuments "c" d s v →
      ∃ fields, HasFields byteEnv v.body fields := by
    intro d s v h
    obtain ⟨p, -, -, -, rfl⟩ := current_twoDocuments.mp h
    exact ⟨p.2, .inr ⟨List.cons_ne_nil _ _, rfl⟩⟩
  have hfuel : (scanPrefixRows twoDocuments docSpaces.latestVersion (collPrefix "c")).length < 3 := by
    decide +kernel
  have hcurrent : ∀ p ∈ bodies, Current docSpaces twoDocuments "c" p.1 3 (bodyVersion p.2) :=
    fun p hp => current_twoDocuments.mpr ⟨p, hp, rfl, rfl, rfl⟩
  refine ⟨by decide +kernel, ?_, ?_⟩
  · obtain ⟨entries, hpages, -, hmem⟩ := (current_pages_exact byteEnv pointersAgree_twoDocuments
      hbodies (by decide : 0 < 2) (by decide : 100 ≤ usizeMax) hfuel).1 (by
        intro d s v h
        obtain ⟨p, hp, rfl, rfl, rfl⟩ := current_twoDocuments.mp h
        rcases List.mem_pair.mp hp with rfl | rfl <;> decide +kernel)
    exact ⟨entries, hpages, fun p hp => (hmem _ _ _).mpr
      ⟨rfl, _, _, hcurrent p hp, .inr ⟨List.cons_ne_nil _ _, rfl⟩⟩⟩
  · exact (current_pages_exact byteEnv pointersAgree_twoDocuments hbodies (by decide : 0 < 2)
      (by decide : 50 ≤ usizeMax) hfuel).2
        ⟨_, _, _, hcurrent ("a", 1) List.mem_cons_self, by decide +kernel⟩

end Sample

end NodedbLite.Document
