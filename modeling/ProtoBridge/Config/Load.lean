import Mathlib.Data.List.DropRight
import Mathlib.Data.List.SplitOn
import ProtoBridge.Lib.Machine
import ProtoBridge.Lib.UnorderedMap
import ProtoBridge.Config.Grammar

/-!
# Loading a protocol configuration

`ProtocolConfig::Load` on the text of a `.cfg` file. The keys of a `transfer` map are
kept whole, and every one of them begins with `transfer.`: `load_transfer`.
-/

namespace ProtoBridge.Config

open Lib

/-! ## Text -/

/-- What `Trim` takes off. -/
def isTrimmed (c : Char) : Bool :=
  c == ' ' || c == '\t' || c == '\r' || c == '\n'

def trim (s : List Char) : List Char :=
  (s.dropWhile isTrimmed).rdropWhile isTrimmed

/-- The text before and after the first `sep`. -/
def cutAt (sep : Char) : List Char → Option (List Char × List Char)
  | [] => none
  | c :: s =>
      if c = sep then some ([], s)
      else (cutAt sep s).map fun cut => (c :: cut.1, cut.2)

/-- The text before and after the first `..`. -/
def cutAtDots : List Char → Option (List Char × List Char)
  | [] => none
  | '.' :: '.' :: s => some ([], s)
  | c :: s => (cutAtDots s).map fun cut => (c :: cut.1, cut.2)

def splitRange (s : List Char) : Option (List Char × List Char) :=
  match cutAtDots s with
  | none => none
  | some (lo, hi) => if trim lo = [] ∨ trim hi = [] then none else some (trim lo, trim hi)

/-! ## Configurations -/

/-- `ProtocolConfig::Dim`. -/
structure Dim where
  var : String
  loExpr : List Char
  hiExpr : List Char
  deriving DecidableEq

/-- The members of `ProtocolConfig`, as `Clear` leaves them. -/
structure ProtocolConfig where
  profilePath : List Char := []
  stack : UnorderedMap (List Char) (List Char) := .empty
  param : List (String × List Char) := []
  dims : List Dim := []
  transfer : UnorderedMap (List Char) (List Char) := .empty
  startup : List Char := "auto".toList
  perStepDelay : List Char := "0".toList
  complete : List Char := "all".toList
  collective : List Char := []
  algorithm : List Char := []
  topology : List Char := []
  currentSection : List Char := []

/-- Where an entry goes in the hash tables. -/
abbrev Placing := Layout (List Char × List Char)

/-- What a key of `[op]` sets. -/
def ProtocolConfig.setOp (layout : Placing) (cfg : ProtocolConfig) (lineNo : Nat)
    (key val : List Char) : Except String ProtocolConfig :=
  if "param.".toList.isPrefixOf key then
    .ok { cfg with param := cfg.param ++ [(String.ofList (key.drop 6), val)] }
  else if "replicate.".toList.isPrefixOf key then
    let var := String.ofList (key.drop 10)
    match splitRange val with
    | some (loExpr, hiExpr) => .ok { cfg with dims := cfg.dims ++ [{ var, loExpr, hiExpr }] }
    | none =>
        .error ("line " ++ toString lineNo ++ ": replicate." ++ var ++ " must be 'lo .. hi'")
  else if "transfer.".toList.isPrefixOf key then
    .ok { cfg with transfer := cfg.transfer.set layout key val }
  else if key = "startup".toList then .ok { cfg with startup := val }
  else if key = "per_step_delay".toList then .ok { cfg with perStepDelay := val }
  else if key = "complete".toList then .ok { cfg with complete := val }
  else if key = "collective".toList then .ok { cfg with collective := val }
  else if key = "algorithm".toList then .ok { cfg with algorithm := val }
  else if key = "topology".toList then .ok { cfg with topology := val }
  else .error ("line " ++ toString lineNo ++ ": unknown op key '" ++ String.ofList key ++ "'")

/-- What a key sets in the current section. Sections other than `[stack]` and `[op]` are
ignored. -/
def ProtocolConfig.setKey (layout : Placing) (cfg : ProtocolConfig) (lineNo : Nat)
    (key val : List Char) : Except String ProtocolConfig :=
  if cfg.currentSection = "stack".toList then
    if key = "profile".toList then .ok { cfg with profilePath := val }
    else .ok { cfg with stack := cfg.stack.set layout key val }
  else if cfg.currentSection = "op".toList then cfg.setOp layout lineNo key val
  else .ok cfg

/-- One turn of the loop of `Load`. -/
def ProtocolConfig.loadLine (layout : Placing) (cfg : ProtocolConfig) (lineNo : Nat)
    (line : List Char) : Except String ProtocolConfig :=
  let t := trim line
  if t = [] ∨ t.head? = some '#' ∨ t.head? = some ';' then .ok cfg
  else if t.head? = some '[' ∧ t.getLast? = some ']' then
    .ok { cfg with currentSection := trim ((t.drop 1).take (t.length - 2)) }
  else
    match cutAt '=' t with
    | none => .error ("line " ++ toString lineNo ++ ": expected key = value")
    | some (key, val) =>
        -- a comment may end the line
        let val := trim (val.takeWhile (· ≠ '#'))
        if trim key = [] then .ok cfg else cfg.setKey layout lineNo (trim key) val

/-- The loop of `Load`, from the line after `lineNo`. -/
def ProtocolConfig.loadLines (layout : Placing) :
    Nat → List (List Char) → ProtocolConfig → Except String ProtocolConfig
  | _, [], cfg => .ok cfg
  | lineNo, line :: rest, cfg => do
      let cfg ← cfg.loadLine layout (lineNo + 1) line
      loadLines layout (lineNo + 1) rest cfg

/-- `Load`. `file` is the text under `path`, if there is any. A file that ends in a newline
has no line after it; here it has an empty one, which is skipped. -/
def load (layout : Placing) (path : String) (file : Option (List Char)) :
    Except String ProtocolConfig :=
  match file with
  | none => .error ("cannot open config: " ++ path)
  | some text => do
      let cfg ← ProtocolConfig.loadLines layout 0 (text.splitOn '\n') {}
      let hasAxes := cfg.collective ≠ [] ∨ cfg.algorithm ≠ []
      if hasAxes ∧ (cfg.collective = [] ∨ cfg.algorithm = []) then
        .error "[op] collective= and algorithm= must both be set (or neither)"
      else if ¬ hasAxes ∧ cfg.transfer.entries = [] then
        .error "config has no transfer.* entries in [op] and no collective=/algorithm="
      else .ok cfg

/-! ## What is loaded -/

/-- Every transfer is written under a key of transfers. -/
def ProtocolConfig.Transfers (cfg : ProtocolConfig) : Prop :=
  ∀ key ∈ cfg.transfer.keys, "transfer.".toList <+: key

namespace ProtocolConfig

variable {layout : Placing} {cfg cfg' : ProtocolConfig} {lineNo : Nat} {key val line : List Char}

theorem Transfers.setOp (h : cfg.Transfers) (ok : cfg.setOp layout lineNo key val = .ok cfg') :
    cfg'.Transfers := by
  rw [ProtocolConfig.setOp] at ok
  split at ok
  · cases ok
    exact h
  · split at ok
    · cases range : splitRange val with
      | none => simp [range] at ok
      | some bounds =>
          simp only [range] at ok
          cases ok
          exact h
    · split at ok
      · rename_i isTransfer
        cases ok
        intro k hk
        rcases UnorderedMap.mem_keys_set.mp hk with rfl | old
        · exact List.isPrefixOf_iff_prefix.mp isTransfer
        · exact h k old
      · repeat' split at ok
        all_goals cases ok
        all_goals exact h

theorem Transfers.setKey (h : cfg.Transfers) (ok : cfg.setKey layout lineNo key val = .ok cfg') :
    cfg'.Transfers := by
  rw [ProtocolConfig.setKey] at ok
  split at ok
  · split at ok
    all_goals cases ok
    all_goals exact h
  · split at ok
    · exact h.setOp ok
    · cases ok
      exact h

theorem Transfers.loadLine (h : cfg.Transfers) (ok : cfg.loadLine layout lineNo line = .ok cfg') :
    cfg'.Transfers := by
  simp only [ProtocolConfig.loadLine] at ok
  split at ok
  · cases ok
    exact h
  · split at ok
    · cases ok
      exact h
    · cases cut : cutAt '=' (trim line) with
      | none => simp [cut] at ok
      | some pair =>
          simp only [cut] at ok
          split at ok
          · cases ok
            exact h
          · exact h.setKey ok

theorem Transfers.loadLines {lines : List (List Char)} (h : cfg.Transfers)
    (ok : loadLines layout lineNo lines cfg = .ok cfg') : cfg'.Transfers := by
  induction lines generalizing lineNo cfg with
  | nil =>
      cases ok
      exact h
  | cons line rest ih =>
      obtain ⟨next, first, more⟩ := bind_eq_ok.mp ok
      exact ih (h.loadLine first) more

end ProtocolConfig

/-- What `Load` accepts has its transfers under such keys. -/
theorem load_transfer {layout : Placing} {path : String} {file : Option (List Char)}
    {cfg : ProtocolConfig} (ok : load layout path file = .ok cfg) : cfg.Transfers := by
  cases file with
  | none => cases ok
  | some text =>
      obtain ⟨read, lines, checks⟩ := bind_eq_ok.mp ok
      have none : ProtocolConfig.Transfers {} := by
        intro key hkey
        cases hkey
      have h := none.loadLines lines
      simp only at checks
      split at checks
      · cases checks
      · split at checks
        · cases checks
        · cases checks
          exact h

end ProtoBridge.Config
