import NodedbLite.Results
import NodedbLite.KvCodec
import NodedbLite.QueryValue
import NodedbLite.SortedKeys

/-! Sorted-index definitions, the windows that limit what a read sees, and the entry a stored row
contributes. Row bodies and number conversion come from the shared crates and are a parameter
record here. -/
namespace NodedbLite.Sorted

open Query (Value)

inductive WindowKind
  | none
  | daily
  | weekly
  | monthly
  | custom
  deriving DecidableEq, Repr

structure WindowDef where
  kind : WindowKind
  timestampColumn : String
  timestampDesc : Bool
  startMs : UInt64
  endMs : UInt64
  deriving DecidableEq, Repr

def WindowDef.none : WindowDef := ⟨.none, "", false, 0, 0⟩

def WindowDef.isWindowed (w : WindowDef) : Bool := w.kind ≠ .none

@[ext] structure SortedIndexDef where
  name : String
  collection : String
  scoreColumn : String
  scoreDesc : Bool
  keyColumn : String
  window : WindowDef
  name_short : Index.ShortName name

/-- What the shared crates provide. -/
structure Shared where
  intToF64 : Int64 → UInt64

section Windows

def msPerDay : UInt64 := 86400000

def startOfDay (nowMs : UInt64) : UInt64 := nowMs / msPerDay * msPerDay

/-- The first of January 1970 was a Thursday. -/
def startOfWeek (nowMs : UInt64) : UInt64 :=
  let days := nowMs / msPerDay
  let sinceMonday := (days + 3) % 7
  (days - sinceMonday) * msPerDay

/-- The year and month of a day count since 1970. -/
def civilYearMonth (days : Int) : Int × Int :=
  let z := days + 719468
  let era := z / 146097
  let doe := z % 146097
  let yoe := (doe - doe / 1460 + doe / 36524 - doe / 146096) / 365
  let doy := doe - (365 * yoe + yoe / 4 - yoe / 100)
  let mp := (5 * doy + 2) / 153
  let month := if mp < 10 then mp + 3 else mp - 9
  (yoe + era * 400 + (if month ≤ 2 then 1 else 0), month)

/-- The day count since 1970 of a date. -/
def daysFromCivil (year month day : Int) : Int :=
  let year := if month ≤ 2 then year - 1 else year
  let era := year / 400
  let yoe := year % 400
  let mp := if 2 < month then month - 3 else month + 9
  let doy := (153 * mp + 2) / 5 + day - 1
  let doe := yoe * 365 + yoe / 4 - yoe / 100 + doy
  era * 146097 + doe - 719468

def startOfMonth (nowMs : UInt64) : UInt64 :=
  let (year, month) := civilYearMonth (nowMs / msPerDay).toNat
  (Int64.ofInt (daysFromCivil year month 1)).toUInt64 * msPerDay

/-- The start of the window current at `nowMs`, none without a window. Outside a custom range no
entry is new enough. -/
def windowStart (w : WindowDef) (nowMs : UInt64) : Option UInt64 :=
  match w.kind with
  | .none => none
  | .daily => some (startOfDay nowMs)
  | .weekly => some (startOfWeek nowMs)
  | .monthly => some (startOfMonth nowMs)
  | .custom =>
    if w.startMs ≤ nowMs && nowMs < w.endMs then some w.startMs else some (UInt64.ofNat (2 ^ 64 - 1))

lemma windowStart_isSome (w : WindowDef) (nowMs : UInt64) :
    (windowStart w nowMs).isSome = w.isWindowed := by
  cases hkind : w.kind <;> simp only [windowStart, WindowDef.isWindowed, hkind] <;>
    first | rfl | (split_ifs <;> rfl)

example : startOfWeek 1714663800000 = 1714348800000 := by decide

example : startOfMonth 1709208000000 = 1706745600000 := by decide

end Windows

section Entries

variable (W : Shared)

/-- A finite float from zero on as the integer below it, saturating. -/
def floatToU64 (bits : UInt64) : Option UInt64 :=
  match Binary64.ofBits bits with
  | .finite q => if 0 ≤ q then some (UInt64.ofNat (min ⌊q⌋.toNat (2 ^ 64 - 1))) else none
  | _ => none

/-- The timestamp column in milliseconds, none when absent, not numeric or negative. -/
def extractTsFromValue (columns : List (String × Value)) (column : String) : Option UInt64 :=
  match columns.lookup column with
  | some (.integer n) => if 0 ≤ n then some n.toUInt64 else none
  | some (.float f) => floatToU64 f
  | _ => none

/-- What a row ranks by, before it is encoded. -/
structure Scored where
  score : UInt64
  ts : Option UInt64
  deadline : UInt64
  deriving DecidableEq, Repr

/-- The entry of a scored row. -/
def Scored.entry (x : Scored) (d : SortedIndexDef) : PkEntry :=
  ⟨encodeScore x.score d.scoreDesc, x.ts.map (encodeTs · d.window.timestampDesc), x.deadline⟩

/-- The score a row's columns give it. -/
def scoreOf (d : SortedIndexDef) (columns : List (String × Value)) : Option UInt64 :=
  match columns.lookup d.scoreColumn with
  | some (.integer n) => some (W.intToF64 n)
  | some (.float f) => some f
  | _ => none

/-- The score, and under a window the timestamp, of a row's columns. -/
def scoredColumns (d : SortedIndexDef) (deadline : UInt64) (columns : List (String × Value)) :
    Option Scored :=
  (scoreOf W d columns).bind fun score =>
    if d.window.isWindowed then
      (extractTsFromValue columns d.window.timestampColumn).map fun ts =>
        ⟨score, some ts, deadline⟩
    else some ⟨score, none, deadline⟩

/-- An entry has a timestamp exactly when the index has a window. -/
def Scored.Fits (x : Scored) (d : SortedIndexDef) : Prop := x.ts.isSome = d.window.isWindowed

variable {W}

end Entries

end NodedbLite.Sorted
