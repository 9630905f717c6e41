import KssUtil.Containers.CircularArrayRuns
import KssUtil.Containers.Templates

/-!
# The algorithm templates on circular arrays

The templates on the arrays of a world, with functions that have a state of their own.  A
program that calls methods and templates does what it would do on bounded lists, whatever its
functions do.
-/

namespace KssUtil.Containers

open KssUtil.Foundation CircularArray Templates

variable {ε υ T : Type}

namespace CircularArray

/-! ## The array as a container -/

/-- `_array[i] = val` -/
def assignCell (a : CircularArray) (i : ℕ) (val : T) : Method T PUnit := do
  mayThrow .element
  let b ← block a
  match (← get).heap.read b i with
  | some _ => modify fun s => { s with heap := s.heap.assign b i val }
  | none => throw .undefined

/-- `(*this)[n] = val`, through the reference that `operator[]` returns. -/
def indexAssign (a : CircularArray) (n : ℕ) (val : T) : Method T PUnit := do
  expr a.array.isSome
  expr (a.size > n)
  let pos := position a n
  expr (positionExpr a pos)
  assignCell a pos val

def container (a : CircularArray) : Container Exn (Store T) T where
  size := pure a.size
  capacity := pure a.capacity
  index := operatorIndex a
  assign := indexAssign a

variable {s : Store T} {l : BoundedList T} {xs : List T} {a : CircularArray} {k : Prop}

theorem sized_container (hs : Shows s.heap a xs) :
    Sized (fun s' => Checked s s' k) (container a) xs.length a.capacity where
  size _ h := ⟨hs.size, h⟩
  capacity _ h := ⟨rfl, h⟩

/-- Looking at an array, of which no element is past the wrap -/
theorem presents_container (hs : Shows s.heap a xs) (hk : k → ¬ Wrapped a) :
    Presents (fun s' => Checked s s' k) (container a) xs a.capacity where
  toSized := sized_container hs
  index := by
    intro i hi s' h
    refine (operatorIndex_returns (h.shows hs) hi).mono ?_
    rintro v s'' ⟨rfl, h'⟩
    exact ⟨rfl, (h.trans h').mono fun hk' => ⟨hk', readable_of_not_wrapped (hk hk') i⟩⟩

/-- What an assignment leaves behind. -/
def assigned (s : Store T) (b i : ℕ) (v : T) : Store T :=
  { s with heap := s.heap.assign b (position s.self i) v }

theorem runs_assignCell {b i : ℕ} {v w : T} {Q : PUnit → Store T → Prop}
    {E : Exn → Store T → Prop} (hq : Quiet s) (harr : a.array = some b)
    (hread : s.heap.read b i = some w) :
    Runs (assignCell a i v) s Q E ↔ Q ⟨⟩ { s with heap := s.heap.assign b i v } := by
  unfold assignCell
  rw [runs_bind, runs_mayThrow hq.throwAt, runs_bind, runs_block harr, runs_bind, runs_get]
  simp only [hread, runs_modify]

theorem owns_assigned (ho : Owns s.heap s.self l) {i : ℕ} (hi : i < l.items.length) (v : T)
    {b : ℕ} (harr : s.self.array = some b) :
    Owns (assigned s b i v).heap s.self (l.set i v) := by
  obtain ⟨blk, hblk, hlen, hcells⟩ := ho.cells_at harr
  have hsize := ho.size
  have hle := ho.size_le
  refine ⟨ho.capacity, ?_, ho.first, ho.last, b,
    { blk with cell := Function.update blk.cell (position s.self i) (some v) }, harr, ?_, hlen, ?_⟩
  · show s.self.size = (l.items.set i v).length
    rw [List.length_set, hsize]
  · show (s.heap.assign b (position s.self i) v).blocks b = _
    rw [Heap.assign_eq hblk]
    exact Function.update_self _ _ _
  · intro j hj
    change j < (l.items.set i v).length at hj
    show Function.update blk.cell (position s.self i) (some v) (position s.self j) =
      some (l.items.set i v)[j]
    rw [List.length_set] at hj
    rw [List.getElem_set]
    by_cases hij : i = j
    · subst hij
      rw [Function.update_self, if_pos rfl]
    · have hne : position s.self j ≠ position s.self i := fun heq =>
        hij (position_inj (by omega) (by omega) heq).symm
      rw [Function.update_of_ne hne, if_neg hij, hcells j hj]

theorem tidy_assigned (ho : Owns s.heap s.self l) {i : ℕ} (hi : i < l.items.length) (v : T)
    {b : ℕ} (harr : s.self.array = some b) (ht : Tidy s.heap s.self) :
    Tidy (assigned s b i v).heap s.self := by
  obtain ⟨blk, hblk, -⟩ := ho.cells_at harr
  have hassign := Heap.assign_eq hblk (position s.self i) v
  refine ⟨?_, ?_⟩
  · show (s.heap.assign b (position s.self i) v).faults = []
    rw [hassign]
    exact ht.faults
  · refine Bare.of_block
      { blk with cell := Function.update blk.cell (position s.self i) (some v) } harr ?_ ?_
    · show (s.heap.assign b (position s.self i) v).blocks b = _
      rw [hassign]
      exact Function.update_self _ _ _
    · intro j hj
      have hne : j ≠ position s.self i := (hj i (by rw [ho.size]; exact hi)).symm
      show Function.update blk.cell (position s.self i) (some v) j = none
      rw [Function.update_of_ne hne]
      exact ht.raw b blk harr hblk j hj

theorem step_assigned (hq : Quiet s) (ho : Owns s.heap s.self l) {i : ℕ}
    (hi : i < l.items.length) (v : T) {b : ℕ} (harr : s.self.array = some b) :
    Step s (assigned s b i v) (l.set i v) True True := by
  obtain ⟨blk, hblk, -⟩ := ho.cells_at harr
  have hassign := Heap.assign_eq hblk (position s.self i) v
  have hnext : (assigned s b i v).heap.next = s.heap.next := by
    show (s.heap.assign b (position s.self i) v).next = s.heap.next
    rw [hassign]
    rfl
  exact Step.of_block hq (hq.fresh.lt_next hblk) harr harr (congrArg Heap.blocks hassign) hnext
    rfl rfl (owns_assigned ho hi v harr) fun _ => tidy_assigned ho hi v harr

/-- The counters stay as they are. -/
theorem indexAssign_returns (hq : Quiet s) (ho : Owns s.heap s.self l) {i : ℕ}
    (hi : i < l.items.length) (v : T) :
    Returns (indexAssign s.self i v) s fun _ s' =>
      Step s s' (l.set i v) True (Readable s.self i) ∧ s'.self = s.self := by
  have hs := ho.shows
  obtain ⟨b, harr, hread⟩ := hs.read hi
  have hbroken := BackStep.of_broken hq ho (!positionExpr s.self (position s.self i))
  have hstep := hbroken.toStep.trans (step_assigned hbroken.quiet hbroken.owns hi v harr)
  unfold indexAssign
  rw [Returns, runs_bind, runs_expr_true (by rw [harr]; rfl), runs_bind,
    runs_expr_true (by rw [hs.size]; simpa using hi)]
  simp only [runs_bind, runs_expr]
  rw [runs_assignCell hbroken.quiet harr hread]
  refine ⟨hstep.mono rfl (fun _ => ⟨trivial, trivial⟩) fun hr => ⟨?_, trivial⟩, rfl⟩
  rw [(positionExpr_iff hs hi).mpr hr]
  rfl

/-! ## `apply` -/

/-- The loop of `apply`, from position `i` on, has left `s'` with the outcome `o`. -/
structure AppliedFrom (fn : ℕ → T → EStateM ε υ T) (i : ℕ) (l : BoundedList T)
    (s : Store T × υ) (o : Except (Exn ⊕ ε) Unit) (s' : Store T × υ) : Prop where
  outcome : o = (mapEach fn i (l.items.drop i) s.2).1.mapError .inr
  functions : s'.2 = (mapEach fn i (l.items.drop i) s.2).2.2
  array : ∃ l', l'.items = l.items.take i ++ (mapEach fn i (l.items.drop i) s.2).2.1 ∧
    l'.capacity = l.capacity ∧ Step s.1 s'.1 l' True (¬ Wrapped s.1.self)

theorem AppliedFrom.cons {fn : ℕ → T → EStateM ε υ T} {i : ℕ} {s s' : Store T × υ}
    {o : Except (Exn ⊕ ε) Unit} {s₁ : Store T} {y : T} {u' : υ} (hi : i < l.items.length)
    (hfn : fn i l.items[i] s.2 = .ok y u')
    (hstep : Step s.1 s₁ (l.set i y) True (¬ Wrapped s.1.self)) (hself : s₁.self = s.1.self)
    (h : AppliedFrom fn (i + 1) (l.set i y) (s₁, u') o s') : AppliedFrom fn i l s o s' := by
  have hdrop : (l.set i y).items.drop (i + 1) = l.items.drop (i + 1) :=
    List.drop_set_of_lt (Nat.lt_succ_self i)
  have htake : (l.set i y).items.take (i + 1) = l.items.take i ++ [y] := by
    show (l.items.set i y).take (i + 1) = _
    rw [List.take_succ_eq_append_getElem (by rwa [List.length_set]), List.getElem_set_self,
      List.take_set_of_le (Nat.le_refl i)]
  have hmap : mapEach fn i (l.items.drop i) s.2 =
      ((mapEach fn (i + 1) (l.items.drop (i + 1)) u').1,
        y :: (mapEach fn (i + 1) (l.items.drop (i + 1)) u').2.1,
        (mapEach fn (i + 1) (l.items.drop (i + 1)) u').2.2) := by
    rw [List.drop_eq_getElem_cons hi, mapEach, hfn]
  obtain ⟨houtcome, hfunctions, l', hitems, hcap, hrest⟩ := h
  rw [hdrop] at houtcome hfunctions hitems
  refine ⟨?_, ?_, l', ?_, hcap, ?_⟩
  · rw [hmap]
    exact houtcome
  · rw [hmap]
    exact hfunctions
  · rw [hmap, hitems, htake, List.append_assoc]
    rfl
  · exact (hstep.trans hrest).mono rfl (fun _ => ⟨trivial, trivial⟩)
      fun hw => ⟨hw, by rw [hself]; exact hw⟩

/-- The body of the loop -/
def applyAt (a : CircularArray) (fn : ℕ → T → EStateM ε υ T) (i : ℕ) :
    EStateM (Exn ⊕ ε) (Store T × υ) PUnit := do
  let x ← onFst .inl (operatorIndex a i)
  let y ← onSnd .inr (fn i x)
  onFst .inl (indexAssign a i y)

theorem runs_apply (fn : ℕ → T → EStateM ε υ T) : ∀ n i (l : BoundedList T) (s : Store T) u,
    Quiet s → Owns s.heap s.self l → i + n = l.items.length →
    Runs (forCount (applyAt s.self fn) i n) (s, u)
      (fun a s' => AppliedFrom fn i l (s, u) (.ok a) s')
      fun e s' => AppliedFrom fn i l (s, u) (.error e) s' := by
  intro n
  induction n with
  | zero =>
      intro i l s u hq ho hn
      have hdrop : l.items.drop i = [] := List.drop_eq_nil_of_le (by omega)
      rw [forCount]
      refine ⟨?_, ?_, l, ?_, rfl, (Step.refl hq ho).mono rfl id fun _ => trivial⟩
      · rw [hdrop]
        rfl
      · rw [hdrop]
        rfl
      · rw [hdrop, List.take_of_length_le (by omega)]
        exact (List.append_nil _).symm
  | succ n ih =>
      intro i l s u hq ho hn
      have hi : i < l.items.length := by omega
      have hdrop : l.items.drop i = l.items[i] :: l.items.drop (i + 1) :=
        List.drop_eq_getElem_cons hi
      rw [forCount, runs_bind, applyAt, runs_bind, runs_onFst]
      refine (operatorIndex_returns ho.shows hi).runs.mono ?_ fun _ _ h => h
      rintro _ s₁ ⟨rfl, hchecked⟩
      have hself : s₁.self = s.self := by
        obtain ⟨β, rfl, -⟩ := hchecked
        rfl
      have hread : Step s s₁ l True (¬ Wrapped s.self) :=
        (hchecked.backStep hq ho).toStep.mono rfl id fun hw => readable_of_not_wrapped hw i
      rw [runs_bind, runs_onSnd]
      cases hfn : fn i l.items[i] u with
      | error e u' =>
          rw [runs_of_error hfn]
          have hmap : mapEach fn i (l.items.drop i) u = (.error e, l.items.drop i, u') := by
            rw [hdrop, mapEach, hfn]
          refine ⟨?_, ?_, l, ?_, rfl, hread⟩
          · rw [hmap]
            rfl
          · rw [hmap]
          · rw [hmap]
            exact (List.take_append_drop i l.items).symm
      | ok y u' =>
          have hassign := indexAssign_returns hread.quiet hread.owns hi y
          rw [hself] at hassign
          rw [runs_of_ok hfn, runs_onFst]
          refine hassign.runs.mono ?_ fun _ _ h => h
          rintro _ s₂ ⟨hwrite, hself₂⟩
          have hstep : Step s s₂ (l.set i y) True (¬ Wrapped s.self) :=
            (hread.trans hwrite).mono rfl (fun _ => ⟨trivial, trivial⟩)
              fun hw => ⟨hw, readable_of_not_wrapped hw i⟩
          have hlen : i + 1 + n = (l.set i y).items.length := by
            show i + 1 + n = (l.items.set i y).length
            rw [List.length_set]
            omega
          have hrest := ih (i + 1) (l.set i y) s₂ u' hstep.quiet hstep.owns hlen
          rw [hself₂] at hrest
          exact hrest.mono (fun _ _ h => h.cons hi hfn hstep hself₂)
            fun _ _ h => h.cons hi hfn hstep hself₂

end CircularArray

/-! ## Templates in a world -/

/-- A template called for named arrays.  The functions it is given have a state of type `υ`
together, and throw what they like. -/
inductive TemplateCall (ε υ T : Type) where
  | forEachIf (x : ℕ) (f : T → EStateM ε υ PUnit) (p : T → EStateM ε υ Bool)
  | notEqual (x y : ℕ) (bp : T → T → EStateM ε υ Bool)
  | findIf (x : ℕ) (pred : T → EStateM ε υ Bool)
  | containsIf (x : ℕ) (pred : T → EStateM ε υ Bool)
  | apply (x : ℕ) (fn : ℕ → T → EStateM ε υ T)
  | isFull (x : ℕ)
  | hasAtLeast (x sz : ℕ)

/-- What a method or a template returns.  An iterator is a position. -/
inductive Answer (T : Type) where
  | result (r : Result T)
  | position (n : ℕ)
deriving DecidableEq, Repr

def Answer.none : Answer T := .result .none

def Answer.bool (b : Bool) : Answer T := .result (.bool b)

namespace World

/-- Run a template on the array named `x`, with the functions in the state `u`. -/
def callBeside (w : World T) (u : υ) (x : ℕ)
    (m : CircularArray → EStateM (Exn ⊕ ε) (Store T × υ) (Answer T)) :
    Except (Exn ⊕ ε) (Answer T) × World T × υ :=
  match w.arrays x with
  | none => (.error (.inl .undefined), w, u)
  | some a =>
      match m a (w.store a, u) with
      | .ok r s => (.ok r, w.after x (some s.1.self) s.1, s.2)
      | .error e s => (.error e, w.after x (some s.1.self) s.1, s.2)

def template (w : World T) (u : υ) : TemplateCall ε υ T →
    Except (Exn ⊕ ε) (Answer T) × World T × υ
  | .forEachIf x f p => w.callBeside u x fun a => do
      forEachIf ((container a).beside .inl).index (fun v => onSnd .inr (f v))
        (fun v => onSnd .inr (p v)) 0 a.size
      return .none
  | .notEqual x y bp =>
      match w.arrays y with
      | none => (.error (.inl .undefined), w, u)
      | some b => w.callBeside u x fun a => do
          return .bool (← notEqual ((container a).beside .inl).index
            ((container b).beside .inl).index (fun v v' => onSnd .inr (bp v v')) 0 a.size 0)
  | .findIf x pred => w.callBeside u x fun a => do
      return .position (← findIf ((container a).beside .inl) fun v => onSnd .inr (pred v))
  | .containsIf x pred => w.callBeside u x fun a => do
      return .bool (← containsIf ((container a).beside .inl) fun v => onSnd .inr (pred v))
  | .apply x fn => w.callBeside u x fun a => do
      apply ((container a).beside .inl) fun i v => onSnd .inr (fn i v)
      return .none
  | .isFull x => w.callBeside u x fun a => do
      return .bool (← isFull ((container a).beside .inl))
  | .hasAtLeast x sz => w.callBeside u x fun a => do
      return .bool (← hasAtLeast ((container a).beside .inl) sz)

end World

namespace Slots

/-- Run a program on the list named `x`, where there is one. -/
def consult (σ : Slots T) (u : υ) (x : ℕ) (n : BoundedList T → EStateM ε υ (Answer T)) :
    Except (Exn ⊕ ε) (Answer T) × Slots T × υ :=
  match σ x with
  | .holds l =>
      match n l u with
      | .ok r u' => (.ok r, σ, u')
      | .error e u' => (.error (.inr e), σ, u')
  | _ => (.error (.inl .undefined), σ, u)

/-- The templates on lists. -/
def template (σ : Slots T) (u : υ) : TemplateCall ε υ T →
    Except (Exn ⊕ ε) (Answer T) × Slots T × υ
  | .forEachIf x f p => σ.consult u x fun l => do
      eachIf f p l.items
      return .none
  | .notEqual x y bp =>
      match σ y with
      | .holds m => σ.consult u x fun l => return .bool (← differ bp l.items m.items)
      | _ => (.error (.inl .undefined), σ, u)
  | .findIf x pred => σ.consult u x fun l => return .position (← firstIndex pred l.items)
  | .containsIf x pred => σ.consult u x fun l => return .bool (← accepted pred l.items)
  | .apply x fn =>
      match σ x with
      | .holds l =>
          let r := mapEach fn 0 l.items u
          ((r.1.map fun _ => .none).mapError .inr,
            Function.update σ x (.holds (l.replace r.2.1 (length_mapEach fn l.items 0 u))), r.2.2)
      | _ => (.error (.inl .undefined), σ, u)
  | .isFull x => σ.consult u x fun l => return .bool l.Full
  | .hasAtLeast x sz => σ.consult u x fun l => return .bool (sz ≤ l.items.length)

/-- The template is called for live arrays; of two, the second has no fewer elements. -/
def legalTemplate (σ : Slots T) : TemplateCall ε υ T → Bool
  | .notEqual x y _ => σ.has x fun l => σ.has y fun m => l.items.length ≤ m.items.length
  | .forEachIf x _ _ | .findIf x _ | .containsIf x _ | .apply x _ | .isFull x
  | .hasAtLeast x _ => σ.isLive x

end Slots

/-- None of the elements that the template may look at is past the wrap of a full array. -/
def World.keepsTemplate (w : World T) (σ : Slots T) : TemplateCall ε υ T → Bool
  | .notEqual x y _ => w.has σ x fun a _ => w.has σ y fun b _ => ¬ Wrapped a ∧ ¬ Wrapped b
  | .forEachIf x _ _ | .findIf x _ | .containsIf x _ | .apply x _ =>
      w.has σ x fun a _ => ¬ Wrapped a
  | .isFull _ | .hasAtLeast _ _ => true

/-! ## One template -/

/-- A template took `w` to `o` where the slots were meant to go to `o'`. -/
structure Matches (w : World T) (kept : Prop) (o : Except (Exn ⊕ ε) (Answer T) × World T × υ)
    (o' : Except (Exn ⊕ ε) (Answer T) × Slots T × υ) : Prop where
  outcome : o.1 = o'.1
  represents : Represents o.2.1 o'.2.1
  functions : o.2.2 = o'.2.2
  kept : kept → o.2.1.broken = w.broken

section

variable {w : World T} {σ : Slots T} {u : υ} {x : ℕ} {a : CircularArray} {l : BoundedList T}
  {k : Prop}

theorem Represents.owns (hrep : Represents w σ) (hl : σ x = .holds l) (ha : w.arrays x = some a) :
    Owns w.heap a l := by
  have h := hrep.slots x
  rw [ha, hl] at h
  exact h

/-- A template that only looks at its arrays. -/
theorem Matches.consult (hrep : Represents w σ) (hl : σ x = .holds l) (ha : w.arrays x = some a)
    {m : CircularArray → EStateM (Exn ⊕ ε) (Store T × υ) (Answer T)}
    {n : BoundedList T → EStateM ε υ (Answer T)}
    (hm : Follows .inr (Beside fun s => Checked (w.store a) s k) Eq (m a) (n l)) :
    Matches w k (w.callBeside u x m) (σ.consult u x n) := by
  have hafter : ∀ s, Checked (w.store a) s k →
      Represents (w.after x (some s.self) s) σ ∧ (k → s.broken = w.broken) := by
    intro s hs
    have hstep := (hs.backStep (hrep.quiet a) (hrep.owns hl ha)).toStep
    have hrep' := hrep.after_step (Or.inl ha) hstep
    rw [Function.update_eq_self_iff.mpr hl.symm] at hrep'
    exact ⟨hrep', hstep.broken⟩
  have hrun := hm (w.store a, u) u ⟨(Checked.refl _).mono fun _ => trivial, rfl⟩
  unfold Runs at hrun
  split at hrun
  · rename_i r s hma
    obtain ⟨_, u', hn, rfl, hs, rfl⟩ := hrun
    simp only [World.callBeside, ha, hma, Slots.consult, hl, hn]
    exact ⟨rfl, (hafter s.1 hs).1, rfl, (hafter s.1 hs).2⟩
  · rename_i e s hma
    obtain ⟨e', u', rfl, hn, hs, rfl⟩ := hrun
    simp only [World.callBeside, ha, hma, Slots.consult, hl, hn]
    exact ⟨rfl, (hafter s.1 hs).1, rfl, (hafter s.1 hs).2⟩

theorem runs_applyTemplate (hq : Quiet (w.store a)) (ho : Owns w.heap a l)
    (fn : ℕ → T → EStateM ε υ T) :
    Runs (apply ((container a).beside .inl) fun i v => onSnd .inr (fn i v)) (w.store a, u)
      (fun r s' => AppliedFrom fn 0 l (w.store a, u) (.ok r) s')
      fun e s' => AppliedFrom fn 0 l (w.store a, u) (.error e) s' := by
  have hloop := runs_apply fn a.size 0 l (w.store a) u hq ho (by rw [Nat.zero_add, ho.size])
  have hsize : Returns ((container a).beside (Sum.inl : Exn → Exn ⊕ ε)).size (w.store a, u)
      fun n s => n = a.size ∧ s = (w.store a, u) := by
    show a.size = a.size ∧ (w.store a, u) = (w.store a, u)
    exact ⟨rfl, rfl⟩
  refine Runs.bind hsize.runs ?_
  rintro _ _ ⟨rfl, rfl⟩
  exact hloop

/-- What the loop leaves, under the name `x` -/
theorem Matches.of_applied {fn : ℕ → T → EStateM ε υ T} {o : Except (Exn ⊕ ε) Unit}
    {s' : Store T × υ} (hrep : Represents w σ) (ha : w.arrays x = some a)
    (h : AppliedFrom fn 0 l (w.store a, u) o s') :
    Matches w (¬ Wrapped a)
      (o.map fun _ => .none, w.after x (some s'.1.self) s'.1, s'.2)
      (((mapEach fn 0 l.items u).1.map fun _ => .none).mapError .inr,
        Function.update σ x (.holds (l.replace (mapEach fn 0 l.items u).2.1
          (length_mapEach fn l.items 0 u))), (mapEach fn 0 l.items u).2.2) := by
  obtain ⟨houtcome, hfunctions, l', hitems, hcap, hstep⟩ := h
  obtain rfl : l' = l.replace (mapEach fn 0 l.items u).2.1 (length_mapEach fn l.items 0 u) :=
    BoundedList.ext hitems hcap
  refine ⟨?_, hrep.after_step (Or.inl ha) hstep, hfunctions, hstep.broken⟩
  rw [List.drop_zero] at houtcome
  rw [houtcome]
  show _ = Except.mapError _ (Except.map _ (mapEach fn 0 l.items u).1)
  cases (mapEach fn 0 l.items u).1 <;> rfl

theorem Matches.apply (hrep : Represents w σ) (hl : σ x = .holds l) (ha : w.arrays x = some a)
    (fn : ℕ → T → EStateM ε υ T) :
    Matches w (¬ Wrapped a) (w.template u (.apply x fn)) (σ.template u (.apply x fn)) := by
  have hrun := runs_applyTemplate (u := u) (hrep.quiet a) (hrep.owns hl ha) fn
  unfold Runs at hrun
  split at hrun
  · rename_i r s happly
    have hbind := bind_of_ok (g := fun _ => pure (Answer.none (T := T))) happly
    simp only [World.template, World.callBeside, ha, hbind, Slots.template, hl]
    exact Matches.of_applied hrep ha hrun
  · rename_i e s happly
    have hbind := bind_of_error (g := fun _ => pure (Answer.none (T := T))) happly
    simp only [World.template, World.callBeside, ha, hbind, Slots.template, hl]
    exact Matches.of_applied hrep ha hrun

/-- **Templates follow lists.** -/
theorem template_matches (hrep : Represents w σ) {t : TemplateCall ε υ T}
    (hlegal : σ.legalTemplate t = true) :
    Matches w (w.keepsTemplate σ t = true) (w.template u t) (σ.template u t) := by
  have hlive : ∀ x p, σ.has x p = true → ∃ l a, σ x = .holds l ∧ w.arrays x = some a ∧
      Owns w.heap a l ∧ p l = true := by
    intro x p h
    obtain ⟨l, hl, hp⟩ := Slots.exists_of_has h
    obtain ⟨a, ha, ho⟩ := hrep.array hl
    exact ⟨l, a, hl, ha, ho, hp⟩
  have hpresents : ∀ {x l a}, σ x = .holds l → w.arrays x = some a → Owns w.heap a l →
      Presents (fun s => Checked (w.store a) s
        (w.has σ x (fun a _ => ¬ Wrapped a) = true)) (container a) l.items l.capacity := by
    intro x l a hl ha ho
    rw [← ho.capacity]
    refine presents_container (s := w.store a) ho.shows fun hk => ?_
    rw [World.has_holds ha hl] at hk
    exact of_decide_eq_true hk
  cases t with
  | forEachIf x f p =>
      obtain ⟨l, a, hl, ha, ho, -⟩ := hlive x _ hlegal
      have hlen : 0 + a.size = l.items.length := by rw [Nat.zero_add, ho.size]
      refine Matches.consult hrep hl ha ?_
      exact (follows_forEachIf (hpresents hl ha ho).index f p a.size 0 hlen).bind
        fun _ _ _ => follows_pure rfl
  | notEqual x y bp =>
      obtain ⟨l, a, hl, ha, ho, hy⟩ := hlive x _ hlegal
      obtain ⟨m, b, hm, hb, ho', hlen⟩ := hlive y _ hy
      have hk : World.keepsTemplate w σ (.notEqual x y bp) = true ↔
          ¬ Wrapped a ∧ ¬ Wrapped b := by
        rw [World.keepsTemplate, World.has_holds ha hl, World.has_holds hb hm, decide_eq_true_eq]
      simp only [World.template, hb, Slots.template, hm]
      refine Matches.consult hrep hl ha ?_
      have hfirst := presents_container (s := w.store a) ho.shows fun h => (hk.mp h).1
      have hsecond := presents_container (s := w.store a) ho'.shows fun h => (hk.mp h).2
      exact (follows_notEqual hfirst.index hsecond.index bp ho.size (of_decide_eq_true hlen)).bind
        fun _ _ h => follows_pure (h ▸ rfl)
  | findIf x pred =>
      obtain ⟨l, a, hl, ha, ho, -⟩ := hlive x _ hlegal
      refine Matches.consult hrep hl ha ?_
      exact (follows_findIf (hpresents hl ha ho) pred).bind fun _ _ h => follows_pure (h ▸ rfl)
  | containsIf x pred =>
      obtain ⟨l, a, hl, ha, ho, -⟩ := hlive x _ hlegal
      refine Matches.consult hrep hl ha ?_
      exact (follows_containsIf (hpresents hl ha ho) pred).bind fun _ _ h =>
        follows_pure (h ▸ rfl)
  | apply x fn =>
      obtain ⟨l, a, hl, ha, ho, -⟩ := hlive x _ hlegal
      have happly := Matches.apply (u := u) hrep hl ha fn
      refine ⟨happly.outcome, happly.represents, happly.functions, fun hk => happly.kept ?_⟩
      rw [World.keepsTemplate, World.has_holds ha hl] at hk
      exact of_decide_eq_true hk
  | isFull x =>
      obtain ⟨l, a, hl, ha, ho, -⟩ := hlive x _ hlegal
      have hsized := sized_container (s := w.store a) (k := true = true) ho.shows
      rw [ho.capacity] at hsized
      rw [World.template, Slots.template]
      refine Matches.consult hrep hl ha ?_
      exact (follows_isFull hsized).bind (g := fun b => pure (Answer.bool b))
        fun _ _ h => follows_pure (congrArg Answer.bool h)
  | hasAtLeast x sz =>
      obtain ⟨l, a, hl, ha, ho, -⟩ := hlive x _ hlegal
      have hsized := sized_container (s := w.store a) (k := true = true) ho.shows
      rw [World.template, Slots.template]
      refine Matches.consult hrep hl ha ?_
      exact (follows_hasAtLeast hsized sz).bind (g := fun b => pure (Answer.bool b))
        fun _ _ h => follows_pure (congrArg Answer.bool h)

end

/-! ## Programs of methods and templates -/

inductive Statement (ε υ T : Type) where
  | call (c : Call T)
  | template (t : TemplateCall ε υ T)

def Call.assignsMove : Call T → Bool
  | .assignMove _ _ => true
  | _ => false

section

variable [BEq T] [LT T] [DecidableLT T]

def World.perform (depth : ℕ) (w : World T) (u : υ) : Statement ε υ T →
    Except (Exn ⊕ ε) (Answer T) × World T × υ
  | .call c =>
      let o := w.step depth c
      ((o.1.map .result).mapError .inl, o.2, u)
  | .template t => w.template u t

def Slots.perform (σ : Slots T) (u : υ) : Statement ε υ T →
    Except (Exn ⊕ ε) (Answer T) × Slots T × υ
  | .call c =>
      let o := σ.step c
      ((o.1.map .result).mapError .inl, o.2, u)
  | .template t => σ.template u t

/-- The outcomes of the statements, and what the last one leaves -/
def World.program (depth : ℕ) (w : World T) (u : υ) : List (Statement ε υ T) →
    List (Except (Exn ⊕ ε) (Answer T)) × World T × υ
  | [] => ([], w, u)
  | p :: ps =>
      let o := w.perform depth u p
      let r := program depth o.2.1 o.2.2 ps
      (o.1 :: r.1, r.2)

def Slots.program (σ : Slots T) (u : υ) : List (Statement ε υ T) →
    List (Except (Exn ⊕ ε) (Answer T)) × Slots T × υ
  | [] => ([], σ, u)
  | p :: ps =>
      let o := σ.perform u p
      let r := program o.2.1 o.2.2 ps
      (o.1 :: r.1, r.2)

/-- Every statement of a program meets `p`, in the state it is run in. -/
def World.everyStatement (depth : ℕ) (p : World T → Slots T → Statement ε υ T → Bool)
    (w : World T) (σ : Slots T) (u : υ) : List (Statement ε υ T) → Bool
  | [] => true
  | q :: qs =>
      p w σ q && everyStatement depth p (w.perform depth u q).2.1 (σ.perform u q).2.1
        (w.perform depth u q).2.2 qs

/-- A legal call that is no move assignment, or a legal template -/
def Slots.legalStatement (σ : Slots T) : Statement ε υ T → Bool
  | .call c => σ.legal c && !c.assignsMove
  | .template t => σ.legalTemplate t

def World.keepsStatement (w : World T) (σ : Slots T) : Statement ε υ T → Bool
  | .call c => w.keeps σ c
  | .template t => w.keepsTemplate σ t

theorem perform_matches (depth : ℕ) {w : World T} {σ : Slots T} (u : υ) (hrep : Represents w σ)
    {p : Statement ε υ T} (hlegal : σ.legalStatement p = true) :
    Matches w (w.keepsStatement σ p = true) (w.perform (depth + 1) u p) (σ.perform u p) := by
  cases p with
  | template t => exact template_matches hrep hlegal
  | call c =>
      rw [Slots.legalStatement, Bool.and_eq_true, Bool.not_eq_true'] at hlegal
      have hmove : ∀ x y, c ≠ .assignMove x y := by
        rintro x y rfl
        exact absurd hlegal.2.symm Bool.false_ne_true
      have hstep := step_refines depth hrep hlegal.1 hmove
      refine ⟨?_, hstep.represents, rfl, hstep.kept⟩
      show ((w.step (depth + 1) c).1.map _).mapError _ = _
      rw [hstep.outcome]
      rfl

/-- The law of one statement, along a program. -/
theorem program_matches (depth : ℕ) (ps : List (Statement ε υ T)) : ∀ (w : World T)
    (σ : Slots T) (u : υ), Represents w σ →
      World.everyStatement (depth + 1) (fun _ σ p => σ.legalStatement p) w σ u ps = true →
      (w.program (depth + 1) u ps).1 = (σ.program u ps).1 ∧
      Represents (w.program (depth + 1) u ps).2.1 (σ.program u ps).2.1 ∧
      (w.program (depth + 1) u ps).2.2 = (σ.program u ps).2.2 ∧
      (World.everyStatement (depth + 1) World.keepsStatement w σ u ps = true →
        (w.program (depth + 1) u ps).2.1.broken = w.broken) := by
  induction ps with
  | nil => exact fun w σ u hrep _ => ⟨rfl, hrep, rfl, fun _ => rfl⟩
  | cons p ps ih =>
      intro w σ u hrep hlegal
      rw [World.everyStatement, Bool.and_eq_true] at hlegal
      have hp := perform_matches depth u hrep hlegal.1
      obtain ⟨houtcomes, hrep', hfunctions, hkept⟩ :=
        ih _ _ (w.perform (depth + 1) u p).2.2 hp.represents hlegal.2
      have hu := hp.functions
      rw [World.program, Slots.program]
      rw [hu] at houtcomes hrep' hfunctions hkept ⊢
      refine ⟨?_, hrep', hfunctions, fun hkeeps => ?_⟩
      · exact congrArg₂ _ hp.outcome houtcomes
      · rw [World.everyStatement, Bool.and_eq_true, hu] at hkeeps
        exact (hkept hkeeps.2).trans (hp.kept hkeeps.1)

/-- **Templates on circular arrays.**  A program of methods and templates has the outcomes that
it has on bounded lists, whatever its functions return, throw and change: they see the same
elements in the same order, and leave the same state. -/
theorem templates_follow_lists (depth : ℕ) (u : υ) (ps : List (Statement ε υ T))
    (hlegal : World.everyStatement (depth + 1) (fun _ σ p => σ.legalStatement p) {} Slots.start u
      ps = true) :
    (World.program (depth + 1) {} u ps).1 = (Slots.start.program u ps).1 ∧
    (World.program (depth + 1) {} u ps).2.2 = (Slots.start.program u ps).2.2 ∧
    (∀ x l, (Slots.start.program u ps).2.1 x = .holds l →
      ∃ a, (World.program (depth + 1) {} u ps).2.1.arrays x = some a ∧
        a.Holds (World.program (depth + 1) {} u ps).2.1.heap l) ∧
    (World.everyStatement (depth + 1) World.keepsStatement {} Slots.start u ps = true →
      (World.program (depth + 1) {} u ps).2.1.broken = false) := by
  obtain ⟨houtcomes, hrep, hfunctions, hkept⟩ :=
    program_matches depth ps {} Slots.start u represents_start hlegal
  refine ⟨houtcomes, hfunctions, fun x l hl => ?_, hkept⟩
  obtain ⟨a, ha, ho⟩ := hrep.array hl
  exact ⟨a, ha, ho.holds⟩

end

/-- Doubles an element and counts it; there is no second one. -/
def doubleFirst (i v : ℕ) : EStateM Unit ℕ ℕ := do
  modify (· + 1)
  if i = 0 then pure (2 * v) else throw ()

/-- A full array that wraps: `apply` replaces the first element, and then an exception comes. -/
def doublingProgram : List (Statement Unit ℕ ℕ) :=
  [.call (.constructFill 0 2 7 2), .call (.popFront 0), .call (.pushBack 0 1),
    .template (.apply 0 doubleFirst), .template (.findIf 0 fun v => pure (v == 1)),
    .call (.index 0 0)]

theorem templates_follow_lists_doubling :
    (World.program (0 + 1) {} 0 doublingProgram).1 =
      [.ok .none, .ok .none, .ok .none, .error (.inr ()), .ok (.position 1),
        .ok (.result (.element 14))] ∧
    (World.program (0 + 1) {} 0 doublingProgram).2.2 = 2 := by
  have hfollows := templates_follow_lists 0 0 doublingProgram (by decide)
  exact ⟨hfollows.1.trans (by decide), hfollows.2.1.trans (by decide)⟩

end KssUtil.Containers
