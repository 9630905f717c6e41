import KssUtil.Foundation.AssignedMap
import KssUtil.Strings.TypedText
import Mathlib.Data.Char
import Mathlib.Data.List.Lex

/-!
# Attributes (attributes.hpp, attributes.cpp)

A map from strings to strings, with conversions of what it holds.  Runs of `setAttribute` have
the meaning of a finite map.
-/

namespace KssUtil.Values

open KssUtil.Foundation KssUtil.Libc KssUtil.Time KssUtil.Strings

/-- The order of `std::string`. -/
def stringOrder : StrictWeakOrder (List Char) := StrictWeakOrder.ofLinear (List Char)

structure Attributes where
  attributes : OrderedMap (List Char) (List Char)
  order : attributes.order = stringOrder

/-- `parameters` is thrown by the contract, and `convert` by a conversion. -/
inductive Error where
  | parameters
  | invalidArgument (what : List Char)
  | convert (e : Exn)
deriving DecidableEq, Repr

namespace Attributes

def empty : Attributes := ⟨OrderedMap.empty stringOrder, rfl⟩

def setAttribute (a : Attributes) (key value : List Char) : Except Error Attributes :=
  if key.isEmpty then throw .parameters
  else return ⟨a.attributes.assign key value [], OrderedMap.order_assign.trans a.order⟩

def hasAttribute (a : Attributes) (key : List Char) : Except Error Bool :=
  if key.isEmpty then throw .parameters else return (a.attributes.find? key).isSome

def attributeKeys (a : Attributes) : List (List Char) := a.attributes.keys

def notFound (key : List Char) : Error :=
  .invalidArgument ("Could not find the key '".toList ++ key ++ "' in the attributes map.".toList)

def rawAttribute (a : Attributes) (key : List Char) : Except Error (List Char) :=
  match a.attributes.find? key with
  | none => throw (notFound key)
  | some value => return value

section

variable {T : Type} (convert : List Char → Except Exn T)

/-- `attribute<T>` -/
def attribute' (a : Attributes) (key : List Char) : Except Error T := do
  let ra ← rawAttribute a key
  (convert ra).mapError .convert

def attributeWithDefault (a : Attributes) (key : List Char) (defaultValue : T) :
    Except Error T := do
  if ← hasAttribute a key then attribute' convert a key else return defaultValue

end

/-- The attributes after some calls of `setAttribute`; what a call throws is caught. -/
def afterCalls (a : Attributes) : List (List Char × List Char) → Attributes
  | [] => a
  | (key, value) :: calls =>
      match a.setAttribute key value with
      | .ok a' => afterCalls a' calls
      | .error _ => afterCalls a calls

/-- The value that a key has been given last. -/
def lastValue (calls : List (List Char × List Char)) (key : List Char) : Option (List Char) :=
  if key.isEmpty then none else (calls.reverse.find? fun c => c.1 = key).map Prod.snd

section

variable {a : Attributes} {key : List Char} {calls calls' : List (List Char × List Char)}
  {T : Type} {convert : List Char → Except Exn T}

theorem setAttribute_of_ne (a : Attributes) (value : List Char) (h : key ≠ []) :
    ∃ a', a.setAttribute key value = .ok a' ∧
      a'.attributes = a.attributes.assign key value [] := by
  unfold setAttribute
  rw [if_neg fun hempty => h (List.isEmpty_iff.mp hempty)]
  exact ⟨_, rfl, rfl⟩

/-- The calls that throw have no effect. -/
theorem attributes_afterCalls : (a.afterCalls calls).attributes =
    a.attributes.assignAll [] (calls.filter fun c => !c.1.isEmpty) := by
  induction calls generalizing a with
  | nil => rfl
  | cons c calls ih =>
      obtain ⟨key, value⟩ := c
      rw [afterCalls]
      by_cases hkey : key = []
      · have hthrows : a.setAttribute key value = .error .parameters := by
          rw [hkey]
          rfl
        rw [hthrows, List.filter_cons_of_neg (by rw [hkey]; exact Bool.false_ne_true)]
        exact ih
      · obtain ⟨a', hset, hattributes⟩ := setAttribute_of_ne a value hkey
        rw [hset, List.filter_cons_of_pos (by simpa using hkey)]
        show (a'.afterCalls calls).attributes = _
        rw [ih, hattributes]
        rfl

theorem equiv_stringOrder {k k' : List Char} : stringOrder.equiv k k' = decide (k = k') := by
  rw [Bool.eq_iff_iff, decide_eq_true_eq]
  constructor
  · exact StrictWeakOrder.eq_of_equiv_ofLinear
  · rintro rfl
    exact StrictWeakOrder.equiv_refl _

/-- **What a run finds** is what it has been given last. -/
theorem find?_afterCalls (calls : List (List Char × List Char)) (key : List Char) :
    (empty.afterCalls calls).attributes.find? key = lastValue calls key := by
  rw [attributes_afterCalls, OrderedMap.find?_assignAll]
  have hnone : (empty.attributes).find? key = none := rfl
  have horder : empty.attributes.order = stringOrder := rfl
  rw [hnone, Option.or_none, horder]
  unfold OrderedMap.lastOf lastValue
  rw [← List.filter_reverse, List.find?_filter]
  split
  · rename_i hkey
    rw [Option.map_eq_none_iff, List.find?_eq_none]
    rintro c - hc
    simp only [equiv_stringOrder, decide_eq_true_eq] at hc
    rw [hc.2, hkey] at hc
    cases hc.1
  · rename_i hkey
    congr 2
    funext c
    rw [equiv_stringOrder, Bool.eq_iff_iff]
    simp only [Bool.not_eq_true', decide_eq_true_eq]
    constructor
    · exact fun h => h.2
    · rintro rfl
      exact ⟨Bool.eq_false_iff.mpr hkey, rfl⟩

theorem find?_congr_last {a a' : Attributes}
    (h : ∀ key, a.attributes.find? key = a'.attributes.find? key) : a = a' := by
  obtain ⟨m, hm⟩ := a
  obtain ⟨m', hm'⟩ := a'
  obtain rfl : m = m' := by
    refine OrderedMap.ext_find? (hm.trans hm'.symm) ?_ h
    rw [hm]
    exact fun k k' => StrictWeakOrder.eq_of_equiv_ofLinear
  rfl

/-- What the attributes answer, in terms of the values that the keys have been given. -/
structure Means (a : Attributes) (given : List Char → Option (List Char)) : Prop where
  raw : ∀ key, a.rawAttribute key =
    match given key with
    | some value => .ok value
    | none => .error (notFound key)
  has : ∀ key ≠ [], a.hasAttribute key = .ok (given key).isSome
  keys : ∀ key, key ∈ a.attributeKeys ↔ (given key).isSome = true
  sorted : a.attributeKeys.Pairwise (· < ·)

theorem means_find? (a : Attributes) : a.Means a.attributes.find? := by
  refine ⟨fun key => ?_, fun key hkey => ?_, fun key => ?_, ?_⟩
  · unfold rawAttribute
    cases a.attributes.find? key with
    | none => rfl
    | some value => rfl
  · unfold hasAttribute
    rw [if_neg fun h => hkey (List.isEmpty_iff.mp h)]
    rfl
  · refine OrderedMap.mem_keys ?_
    rw [a.order]
    exact fun k k' => StrictWeakOrder.eq_of_equiv_ofLinear
  · refine a.attributes.sorted_keys.imp ?_
    rw [a.order]
    exact fun h => StrictWeakOrder.less_ofLinear.mp h

theorem means_afterCalls (calls : List (List Char × List Char)) :
    (empty.afterCalls calls).Means (lastValue calls) := by
  have hfind : (empty.afterCalls calls).attributes.find? = lastValue calls :=
    funext (find?_afterCalls calls)
  rw [← hfind]
  exact means_find? _

/-- **Attributes are a finite map.**  Whatever the calls, each key has the value that it has
been given last, and the attributes are the same for any calls that give the keys the same
values. -/
theorem attributes_run (calls : List (List Char × List Char)) :
    (empty.afterCalls calls).Means (lastValue calls) ∧
      ∀ calls', (∀ key, lastValue calls key = lastValue calls' key) →
        empty.afterCalls calls = empty.afterCalls calls' := by
  refine ⟨means_afterCalls calls, fun calls' h => find?_congr_last fun key => ?_⟩
  rw [find?_afterCalls, find?_afterCalls, h]

/-! ## Typed attributes -/

theorem lastValue_append {calls calls' : List (List Char × List Char)} {key value : List Char}
    (hkey : key ≠ []) (hlater : ∀ c ∈ calls', c.1 ≠ key) :
    lastValue (calls ++ (key, value) :: calls') key = some value := by
  unfold lastValue
  rw [if_neg fun h => hkey (List.isEmpty_iff.mp h), List.reverse_append, List.reverse_cons,
    List.append_assoc, List.find?_append]
  have hnone : calls'.reverse.find? (fun c => c.1 = key) = none := by
    rw [List.find?_eq_none]
    intro c hc
    rw [decide_eq_true_eq]
    exact hlater c (List.mem_reverse.mp hc)
  have hfound : ((key, value) :: calls.reverse).find? (fun c => decide (c.1 = key)) =
      some (key, value) := List.find?_cons_of_pos (decide_eq_true rfl)
  rw [hnone, List.singleton_append, hfound]
  rfl

/-- A call for another key. -/
theorem lastValue_other {calls calls' : List (List Char × List Char)} {key key' value : List Char}
    (hne : key ≠ key') :
    lastValue (calls ++ (key, value) :: calls') key' = lastValue (calls ++ calls') key' := by
  unfold lastValue
  have hskip : [(key, value)].find? (fun c => decide (c.1 = key')) = none :=
    List.find?_cons_of_neg fun h => hne (of_decide_eq_true h)
  rw [List.reverse_append, List.reverse_cons, List.reverse_append, List.append_assoc,
    List.find?_append, List.find?_append, List.find?_append, hskip, Option.none_or]

/-- **A typed value is kept.**  However an attribute is converted, it is the value it has been
written as, until it is set again. -/
theorem typed_attribute (p : Platform) {t : ValueType} {v : t.Carrier} (hvalid : t.Valid v)
    {key : List Char} (hkey : key ≠ []) (calls calls' : List (List Char × List Char))
    (hlater : ∀ c ∈ calls', c.1 ≠ key) : ∃ value, t.write p v = .ok value ∧
      let a := empty.afterCalls (calls ++ (key, value) :: calls')
      a.attribute' (t.convert p) key = .ok v ∧
      (∀ defaultValue, a.attributeWithDefault (t.convert p) key defaultValue = .ok v) ∧
      ∀ key' ≠ key,
        a.rawAttribute key' = (empty.afterCalls (calls ++ calls')).rawAttribute key' := by
  obtain ⟨value, hwrite, hconvert⟩ := ValueType.convert_write p hvalid
  refine ⟨value, hwrite, ?_⟩
  have hmeans := means_afterCalls (calls ++ (key, value) :: calls')
  have hraw := hmeans.raw key
  have hhas := hmeans.has key hkey
  rw [lastValue_append hkey hlater] at hraw hhas
  have hattribute : (empty.afterCalls (calls ++ (key, value) :: calls')).attribute'
      (t.convert p) key = .ok v := by
    rw [attribute', hraw]
    show (t.convert p value).mapError Error.convert = .ok v
    rw [hconvert]
    rfl
  refine ⟨hattribute, fun defaultValue => ?_, fun key' hne => ?_⟩
  · rw [attributeWithDefault, hhas]
    exact hattribute
  · rw [hmeans.raw, (means_afterCalls (calls ++ calls')).raw, lastValue_other hne.symm]

/-- A count of milliseconds under the key `timeout`, set between two other attributes. -/
theorem typed_attribute_timeout : ∃ value,
    (ValueType.duration .ms).write .zeroed (-1500 : ℤ) = .ok value ∧
      let a := empty.afterCalls ([("name".toList, [])] ++
        ("timeout".toList, value) :: [("name".toList, "x".toList)])
      a.attribute' ((ValueType.duration .ms).convert .zeroed) "timeout".toList = .ok (-1500 : ℤ) ∧
      (∀ defaultValue, a.attributeWithDefault ((ValueType.duration .ms).convert .zeroed)
        "timeout".toList defaultValue = .ok (-1500 : ℤ)) ∧
      ∀ key' ≠ "timeout".toList, a.rawAttribute key' =
        (empty.afterCalls ([("name".toList, [])] ++ [("name".toList, "x".toList)])).rawAttribute
          key' :=
  typed_attribute (t := .duration .ms) (v := (-1500 : ℤ)) .zeroed ⟨by decide, by decide⟩ (by decide)
    [("name".toList, [])] [("name".toList, "x".toList)] (by decide)

end
end Attributes
end KssUtil.Values
