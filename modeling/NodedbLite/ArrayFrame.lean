import NodedbLite.ArrayVersions

/-! What the calls of the array engine leave alone, and the rows a write and a flush move. -/
namespace NodedbLite.Arrays

variable {Coord Attr : Type} [LinearOrder Coord]

/-- The segments of all other arrays are as they were. -/
structure SameElsewhere (name : String) (d d' : Storage Coord Attr) : Prop where
  getSegment : ∀ other id, other ≠ name → d'.getSegment other id = d.getSegment other id

lemma SameElsewhere.refl (name : String) (d : Storage Coord Attr) : SameElsewhere name d d :=
  ⟨fun _ _ _ => rfl⟩

lemma SameElsewhere.trans {name : String} {d d' d'' : Storage Coord Attr}
    (h : SameElsewhere name d d') (h' : SameElsewhere name d' d'') : SameElsewhere name d d'' :=
  ⟨fun other id hne => (h'.getSegment other id hne).trans (h.getSegment other id hne)⟩

lemma getSegment_writeSegment (d : Storage Coord Attr) (name other : String) (id jd : Nat)
    (tiles : Segment Coord Attr) :
    (d.writeSegment name id tiles).getSegment other jd
      = if other = name ∧ jd = id then some tiles else d.getSegment other jd := by
  unfold Storage.getSegment Storage.writeSegment
  rw [SortedMap.get_insert]
  congr 1
  simp [Prod.ext_iff]

lemma getSegment_deleteSegment (d : Storage Coord Attr) (name other : String) (id jd : Nat) :
    (d.deleteSegment name id).getSegment other jd
      = if other = name ∧ jd = id then none else d.getSegment other jd := by
  unfold Storage.getSegment Storage.deleteSegment
  rw [SortedMap.get_erase]
  congr 1
  simp [Prod.ext_iff]

lemma sameElsewhere_writeSegment (d : Storage Coord Attr) (name : String) (id : Nat)
    (tiles : Segment Coord Attr) : SameElsewhere name d (d.writeSegment name id tiles) := by
  constructor
  intro other jd hne
  rw [getSegment_writeSegment, if_neg (fun h => hne h.1)]

lemma sameElsewhere_deleteSegment (d : Storage Coord Attr) (name : String) (id : Nat) :
    SameElsewhere name d (d.deleteSegment name id) := by
  constructor
  intro other jd hne
  rw [getSegment_deleteSegment, if_neg (fun h => hne h.1)]

lemma sameElsewhere_retainSegment (env : ArrayEnv Coord Attr) (name : String) (horizonMs : Int)
    (id : Nat) (p : RetentionPass Coord Attr) :
    SameElsewhere name p.storage (retainSegment env name horizonMs id p).2.storage := by
  unfold retainSegment
  split
  next => exact .refl ..
  next =>
    split
    next => exact .refl ..
    next =>
      split
      next => exact .refl ..
      next =>
        split
        next => exact .refl ..
        next =>
          split
          next => exact .refl ..
          next =>
            dsimp only
            have hdelete := sameElsewhere_deleteSegment p.storage name id
            split
            next => exact hdelete
            next =>
              split
              next => exact hdelete
              next => exact hdelete.trans (sameElsewhere_writeSegment ..)

lemma sameElsewhere_retainSegments (env : ArrayEnv Coord Attr) (name : String) (horizonMs : Int)
    (ids : List Nat) (p : RetentionPass Coord Attr) :
    SameElsewhere name p.storage (retainSegments env name horizonMs ids p).2.storage := by
  induction ids generalizing p with
  | nil => exact .refl ..
  | cons id ids ih =>
    have hone := sameElsewhere_retainSegment env name horizonMs id p
    unfold retainSegments
    split
    next p' heq =>
      rw [heq] at hone
      exact hone.trans (ih p')
    next e p' heq =>
      rw [heq] at hone
      exact hone

lemma sameElsewhere_runRetention (env : ArrayEnv Coord Attr) (name : String)
    (retainMs nowMs : Int) (budget : CallBudget) (d : Storage Coord Attr)
    (manifest : ArrayManifest) :
    SameElsewhere name d (runRetention env name retainMs nowMs budget d manifest).2.1 := by
  have hall := sameElsewhere_retainSegments env name (saturatingSub nowMs retainMs)
    manifest.segments ⟨budget, d, manifest.nextId, [], 0⟩
  unfold runRetention
  dsimp only
  split
  next e p heq =>
    rw [heq] at hall
    exact hall
  next p heq =>
    rw [heq] at hall
    split
    next => exact hall
    next => exact ⟨hall.getSegment⟩

/-- What a flush of one array can do to the engine, whatever its calls do: the arrays' schemas,
policies and bindings and the surrogate counter stay, and so does everything of the others. -/
structure FlushFrame (name : String) (db db' : ArrayDb Coord Attr) : Prop where
  nextSurrogate : db'.nextSurrogate = db.nextSurrogate
  flushThreshold : db'.flushThreshold = db.flushThreshold
  elsewhere : SameElsewhere name db.storage db'.storage
  others : ∀ other, other ≠ name → db'.arrays.get other = db.arrays.get other
  missing : db.arrays.get name = none → db'.arrays.get name = none
  same : ∀ st, db.arrays.get name = some st → ∃ st', db'.arrays.get name = some st' ∧
    st'.schema = st.schema ∧ st'.auditRetainMs = st.auditRetainMs ∧
    st'.bindings.bound = st.bindings.bound

lemma FlushFrame.refl (name : String) (db : ArrayDb Coord Attr) : FlushFrame name db db :=
  ⟨rfl, rfl, .refl .., fun _ _ => rfl, fun h => h, fun st h => ⟨st, h, rfl, rfl, rfl⟩⟩

lemma flushFrame_of_insert {name : String} {db db' : ArrayDb Coord Attr}
    {st st' : ArrayState Coord Attr} (hst : db.arrays.get name = some st)
    (harrays : db'.arrays = db.arrays.insert name st')
    (hnext : db'.nextSurrogate = db.nextSurrogate)
    (hthreshold : db'.flushThreshold = db.flushThreshold)
    (hsame : st'.schema = st.schema ∧ st'.auditRetainMs = st.auditRetainMs ∧
      st'.bindings.bound = st.bindings.bound)
    (hstorage : SameElsewhere name db.storage db'.storage) : FlushFrame name db db' := by
  refine ⟨hnext, hthreshold, hstorage, ?_, ?_, ?_⟩
  · intro other hne
    rw [harrays, SortedMap.get_insert, if_neg hne]
  · intro hnone
    rw [hnone] at hst
    cases hst
  · intro st₀ hst₀
    rw [hst] at hst₀
    obtain rfl := Option.some.inj hst₀
    exact ⟨st', by rw [harrays, SortedMap.get_insert, if_pos rfl], hsame⟩

lemma flushFrame_flushMemtable (env : ArrayEnv Coord Attr) (nowMs : Int) (budget : CallBudget)
    (db : ArrayDb Coord Attr) (name : String) :
    FlushFrame name db (db.flushMemtable env nowMs budget name).2 := by
  unfold ArrayDb.flushMemtable
  split
  next => exact .refl ..
  next st hst =>
    split
    next => exact .refl ..
    next =>
      dsimp only
      split
      next => exact flushFrame_of_insert hst rfl rfl rfl ⟨rfl, rfl, rfl⟩ (.refl ..)
      next =>
        have hwrite := sameElsewhere_writeSegment db.storage name st.manifest.nextId
          st.memtable.drainAndMaterialise.1
        split
        next => exact flushFrame_of_insert hst rfl rfl rfl ⟨rfl, rfl, rfl⟩ (.refl ..)
        next =>
          split
          next => exact flushFrame_of_insert hst rfl rfl rfl ⟨rfl, rfl, rfl⟩ ⟨hwrite.getSegment⟩
          next =>
            split
            next => exact flushFrame_of_insert hst rfl rfl rfl ⟨rfl, rfl, rfl⟩ ⟨hwrite.getSegment⟩
            next =>
              split
              next => exact flushFrame_of_insert hst rfl rfl rfl ⟨rfl, rfl, rfl⟩ ⟨hwrite.getSegment⟩
              next retainMs _ =>
                have hretained := sameElsewhere_runRetention env name retainMs nowMs ‹_›
                  (.saveManifest name ⟨st.manifest.segments ++ [st.manifest.nextId],
                    st.manifest.nextId + 1⟩ (.writeBindings name st.bindings db.nextSurrogate
                      (db.storage.writeSegment name st.manifest.nextId
                        st.memtable.drainAndMaterialise.1)))
                  ⟨st.manifest.segments ++ [st.manifest.nextId], st.manifest.nextId + 1⟩
                exact flushFrame_of_insert hst rfl rfl rfl ⟨rfl, rfl, rfl⟩
                  ⟨fun other id hne => (hretained.getSegment other id hne).trans
                    (hwrite.getSegment other id hne)⟩

end NodedbLite.Arrays
