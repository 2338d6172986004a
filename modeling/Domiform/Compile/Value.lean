import Mathlib.Tactic

/-! YAML values, as the parse layer hands them over: accessors, merge keys, and the shapes serde
decodes them to. The texts of decoding errors are the library's own and are not modelled here. -/
namespace Domiform

inductive Number
  | posInt (n : ℕ)
  | negInt (n : ℤ)
  | float (text : String)
  deriving DecidableEq

inductive Value
  | null
  | bool (b : Bool)
  | number (n : Number)
  | string (s : String)
  | sequence (items : List Value)
  | mapping (entries : List (Value × Value))
  | tagged (tag : String) (inner : Value)

namespace Value

mutual
def beq (a b : Value) : Bool :=
  match a,b with
  | null,null => true
  | bool a,bool b => a == b
  | number a,number b => a == b
  | string a,string b => a == b
  | sequence a,sequence b => beqItems a b
  | mapping a,mapping b => beqEntries a b
  | tagged s a,tagged t b => s == t && beq a b
  | _,_ => false
termination_by structural a
def beqItems (as bs : List Value) : Bool :=
  match as,bs with
  | [],[] => true
  | a :: as,b :: bs => beq a b && beqItems as bs
  | _,_ => false
termination_by structural as
def beqEntries (as bs : List (Value × Value)) : Bool :=
  match as,bs with
  | [],[] => true
  | a :: as,b :: bs => beqEntry a b && beqEntries as bs
  | _,_ => false
termination_by structural as
def beqEntry (a b : Value × Value) : Bool :=
  match a,b with
  | (k,v),(k',v') => beq k k' && beq v v'
termination_by structural a
end

mutual
/-- How deep a value nests. -/
def depth : Value → ℕ
  | sequence items => depthItems items+1
  | mapping entries => depthEntries entries+1
  | tagged _ v => depth v+1
  | _ => 1
def depthItems : List Value → ℕ
  | [] => 0
  | v :: vs => max (depth v) (depthItems vs)
def depthEntries : List (Value × Value) → ℕ
  | [] => 0
  | e :: es => max (depthEntry e) (depthEntries es)
def depthEntry : Value × Value → ℕ
  | (_,v) => depth v
end

/-- Strip every tag. -/
def untag : Value → Value
  | tagged _ v => untag v
  | v => v

def asStr (v : Value) : Option String :=
  match v.untag with
  | string s => some s
  | _ => none

def asBool (v : Value) : Option Bool :=
  match v.untag with
  | bool b => some b
  | _ => none

def asU64 (v : Value) : Option ℕ :=
  match v.untag with
  | number (.posInt n) => some n
  | _ => none

def asSequence (v : Value) : Option (List Value) :=
  match v.untag with
  | sequence items => some items
  | _ => none

/-- Whether a mapping key is exactly this string. -/
def isKey (key : String) : Value → Bool
  | string s => s == key
  | _ => false

/-- `mapping.get(key)`. -/
def get (entries : List (Value × Value)) (key : String) : Option Value :=
  (entries.find? fun e => e.1.isKey key).map Prod.snd

inductive MergeError
  | scalarInMerge
  | taggedInMerge
  | scalarInMergeElement
  | sequenceInMergeElement
  deriving DecidableEq

/-- `mapping.entry(k).or_insert(v)` for every entry. -/
def insertMissing (entries merge : List (Value × Value)) : List (Value × Value) :=
  merge.foldl (fun es e => if es.any fun x => x.1.beq e.1 then es else es ++ [e]) entries

/-- Expand the `<<` key of one mapping. -/
def mergeEntries (entries : List (Value × Value)) : Except MergeError (List (Value × Value)) :=
  let rest := entries.filter fun e => !e.1.isKey "<<"
  match get entries "<<" with
  | none => .ok entries
  | some (mapping merge) => .ok (insertMissing rest merge)
  | some (sequence items) =>
    items.foldlM (fun es item =>
      match item with
      | mapping merge => .ok (insertMissing es merge)
      | sequence _ => .error .sequenceInMergeElement
      | tagged _ _ => .error .taggedInMerge
      | _ => .error .scalarInMergeElement) rest
  | some (tagged _ _) => .error .taggedInMerge
  | some _ => .error .scalarInMerge

/-- Expand merge keys in a value and in everything below it, to the given depth. -/
def applyMergeTo (depth : ℕ) (v : Value) : Except MergeError Value :=
  match depth with
  | 0 => .ok v
  | depth+1 =>
    match v with
    | mapping entries => do
      let entries ← mergeEntries entries
      let entries ← entries.mapM fun e => do
        let v ← applyMergeTo depth e.2
        .ok (e.1,v)
      .ok (mapping entries)
    | sequence items => do
      let items ← items.mapM (applyMergeTo depth)
      .ok (sequence items)
    | tagged tag inner => do
      let inner ← applyMergeTo depth inner
      .ok (tagged tag inner)
    | v => .ok v

/-- `v.apply_merge()`. -/
def applyMerge (v : Value) : Except MergeError Value := applyMergeTo v.depth v

section Decode

/-- An integer in `min..=max`; fractions are no integers. -/
def asInt (min max : ℤ) (v : Value) : Option ℤ :=
  match v.untag with
  | number (.posInt n) => if min ≤ n ∧ (n : ℤ) ≤ max then some n else none
  | number (.negInt n) => if min ≤ n ∧ n ≤ max then some n else none
  | _ => none

def asU8 (v : Value) : Option UInt8 := (v.asInt 0 255).map fun n => UInt8.ofNat n.toNat

def asU16 (v : Value) : Option UInt16 := (v.asInt 0 65535).map fun n => UInt16.ofNat n.toNat

def asU32 (v : Value) : Option UInt32 := (v.asInt 0 (2^32-1)).map fun n => UInt32.ofNat n.toNat

def asI64 (v : Value) : Option ℤ := v.asInt (-2^63) (2^63-1)

/-- The fields of a struct that denies unknown ones: by name from a mapping, by position from a
sequence. -/
def fields (names : List String) (v : Value) : Option (String → Option Value) :=
  match v.untag with
  | mapping entries =>
    match entries.mapM fun e => e.1.asStr.map fun name => (name,e.2) with
    | some named =>
      if (named.all fun e => e.1 ∈ names) ∧ (named.map Prod.fst).Nodup then
        some fun name => named.lookup name
      else none
    | none => none
  | sequence items =>
    if items.length ≤ names.length then some fun name => (names.zip items).lookup name else none
  | _ => none

/-- A field under `#[serde(default)]` whose type is an `Option`. -/
def optional {α : Type} (decode : Value → Option α) : Option Value → Option (Option α)
  | none | some null => some none
  | some v => (decode v).map some

end Decode
end Value
end Domiform
