import Mathlib.Data.List.Forall2
import Scriptlet.Proofs.Ownership

/-!
# Values that are alike

Two runs of one program make functions of different numbers, and their values differ in nothing
else.  `Value.Alike F` relates values of the same shape whose functions are related by `F` and in
which nothing is shared.  What the language can find out about a value does not depend on more:
operators, texts, look-up and changes along a path take alike values to alike results.
-/

namespace Scriptlet

set_option autoImplicit false

/-- Two results that fail alike or succeed alike. -/
inductive Agree {δ α : Type} (E : δ → δ → Prop) (Q : α → α → Prop) : Except δ α → Except δ α → Prop
  | ok {a b : α} : Q a b → Agree E Q (.ok a) (.ok b)
  | error {e f : δ} : E e f → Agree E Q (.error e) (.error f)

namespace Agree

variable {δ κ α β : Type} {E : δ → δ → Prop} {P : α → α → Prop} {Q : β → β → Prop}
  {x y : Except δ α}

theorem refl (x : Except δ α) : Agree Eq Eq x x := by
  cases x with
  | ok a => exact .ok rfl
  | error e => exact .error rfl

theorem bind {f g : α → Except δ β} (hx : Agree E P x y) (hf : ∀ a b, P a b → Agree E Q (f a) (g b)) :
    Agree E Q (x >>= f) (y >>= g) := by
  cases hx with
  | ok h => exact hf _ _ h
  | error h => exact .error h

theorem map {f g : α → β} (hx : Agree E P x y) (hf : ∀ a b, P a b → Q (f a) (g b)) :
    Agree E Q (x.map f) (y.map g) := by
  cases hx with
  | ok h => exact .ok (hf _ _ h)
  | error h => exact .error h

theorem mapError {D : κ → κ → Prop} {f g : δ → κ} (hx : Agree E P x y)
    (hf : ∀ a b, E a b → D (f a) (g b)) : Agree D P (x.mapError f) (y.mapError g) := by
  cases hx with
  | ok h => exact .ok h
  | error h => exact .error (hf _ _ h)

end Agree

variable {ε : Type} {F : Function ε → Function ε → Prop}

/-! ## Values -/

namespace Value

mutual

/-- Values of the same shape with functions that are related by `F`. -/
def Alike (F : Function ε → Function ε → Prop) : Value ε → Value ε → Prop
  | number m, number n => m = n
  | boolean b, boolean c => b = c
  | string s, string t => s = t
  | null, null => True
  | object fs, object gs => AlikeFields F fs gs
  | function f, function g => F f g
  | _, _ => False

/-- Fields of the same names and flags with values that are alike. -/
def AlikeFields (F : Function ε → Function ε → Prop) : List (Slot ε) → List (Slot ε) → Prop
  | [], [] => True
  | ⟨n, m, v⟩ :: fs, ⟨k, l, w⟩ :: gs => (n = k ∧ m = l ∧ Alike F v w) ∧ AlikeFields F fs gs
  | _, _ => False

end

end Value

/-- Slots of the same name and flag with values that are alike. -/
def Slot.Alike (F : Function ε → Function ε → Prop) (s t : Slot ε) : Prop :=
  s.name = t.name ∧ s.isMutable = t.isMutable ∧ s.value.Alike F t.value

namespace Value

theorem alikeFields_iff {fs gs : List (Slot ε)} :
    AlikeFields F fs gs ↔ List.Forall₂ (Slot.Alike F) fs gs := by
  induction fs generalizing gs with
  | nil => cases gs <;> simp [AlikeFields]
  | cons s fs ih =>
    obtain ⟨n, m, v⟩ := s
    cases gs with
    | nil => simp [AlikeFields]
    | cons t gs =>
      obtain ⟨k, l, w⟩ := t
      rw [AlikeFields, ih, List.forall₂_cons, Slot.Alike]

theorem alike_object {fs gs : List (Slot ε)} :
    Alike F (.object fs) (.object gs) ↔ List.Forall₂ (Slot.Alike F) fs gs :=
  alikeFields_iff

namespace Alike

variable {v w v' w' : Value ε}

/-- Alike values are the same scalar, two objects or two functions. -/
theorem cases (h : Alike F v w) :
    (v.IsScalar ∧ v = w) ∨
    (∃ fs gs, v = .object fs ∧ w = .object gs ∧ List.Forall₂ (Slot.Alike F) fs gs) ∨
    ∃ f g, v = .function f ∧ w = .function g ∧ F f g := by
  cases v with
  | shared holder place => cases w <;> exact h.elim
  | object fs =>
    cases w with
    | object gs => exact .inr (.inl ⟨fs, gs, rfl, rfl, alike_object.1 h⟩)
    | _ => exact h.elim
  | function f =>
    cases w with
    | function g => exact .inr (.inr ⟨f, g, rfl, rfl, h⟩)
    | _ => exact h.elim
  | number m =>
    cases w with
    | number n => exact .inl ⟨trivial, congrArg _ h⟩
    | _ => exact h.elim
  | boolean b =>
    cases w with
    | boolean c => exact .inl ⟨trivial, congrArg _ h⟩
    | _ => exact h.elim
  | string s =>
    cases w with
    | string t => exact .inl ⟨trivial, congrArg _ h⟩
    | _ => exact h.elim
  | null =>
    cases w with
    | null => exact .inl ⟨trivial, rfl⟩
    | _ => exact h.elim

theorem of_scalar (h : v.IsScalar) : Alike F v v := by
  cases v with
  | object _ | function _ | shared _ _ => exact h.elim
  | null => trivial
  | number _ | boolean _ | string _ => exact rfl

mutual

/-- A value is like itself if its functions are. -/
theorem of_every {P : Function ε → Prop} (hP : ∀ f, P f → F f f) :
    (v : Value ε) → v.Every P → Alike F v v
  | number _, _ | boolean _, _ | string _, _ => rfl
  | null, _ => trivial
  | object fields, h => of_everyField hP fields h
  | function f, h => hP f h

theorem of_everyField {P : Function ε → Prop} (hP : ∀ f, P f → F f f) :
    (fields : List (Slot ε)) → EveryField P fields → AlikeFields F fields fields
  | [], _ => trivial
  | ⟨_, _, v⟩ :: rest, h => ⟨⟨rfl, rfl, of_every hP v h.1⟩, of_everyField hP rest h.2⟩

end

mutual

/-- Alike values share nothing. -/
theorem every {P : Function ε → Prop} (hP : ∀ f g, F f g → P f) :
    (v w : Value ε) → Alike F v w → v.Every P
  | number _, _, _ | boolean _, _, _ | string _, _, _ | null, _, _ => trivial
  | object fs, object gs, h => everyField hP fs gs h
  | function f, function g, h => hP f g h

theorem everyField {P : Function ε → Prop} (hP : ∀ f g, F f g → P f) :
    (fs gs : List (Slot ε)) → AlikeFields F fs gs → EveryField P fs
  | [], _, _ => trivial
  | ⟨_, _, v⟩ :: fs, ⟨_, _, w⟩ :: gs, h => ⟨every hP v w h.1.2.2, everyField hP fs gs h.2⟩

end

theorem symm (h : Alike F v w) : Alike (fun f g => F g f) w v := by
  revert h
  exact symmetric v w
where
  /-- The same for all values. -/
  symmetric : (v w : Value ε) → Alike F v w → Alike (fun f g => F g f) w v
  | number _, number _, h | boolean _, boolean _, h | string _, string _, h => Eq.symm h
  | null, null, _ => trivial
  | object fs, object gs, h => symmetricFields fs gs h
  | function _, function _, h => h
  symmetricFields : (fs gs : List (Slot ε)) → AlikeFields F fs gs →
      AlikeFields (fun f g => F g f) gs fs
  | [], [], _ => trivial
  | ⟨_, _, v⟩ :: fs, ⟨_, _, w⟩ :: gs, h =>
    ⟨⟨h.1.1.symm, h.1.2.1.symm, symmetric v w h.1.2.2⟩, symmetricFields fs gs h.2⟩

/-- An alike value is its own copy. -/
theorem copy (h : Alike F v w) (store : Store ε) : store.copy v = .ok v :=
  (every (fun _ _ _ => trivial) v w h : v.Every fun _ => True).copyWith

theorem variant (h : Alike F v w) : v.variant = w.variant := by
  obtain ⟨_, rfl⟩ | ⟨_, _, rfl, rfl, _⟩ | ⟨_, _, rfl, rfl, _⟩ := h.cases <;> rfl

theorem text (h : Alike F v w) : v.text = w.text := by
  obtain ⟨_, rfl⟩ | ⟨_, _, rfl, rfl, _⟩ | ⟨_, _, rfl, rfl, _⟩ := h.cases <;> rfl

theorem typeName (h : Alike F v w) : v.typeName = w.typeName := by
  rw [Value.typeName, Value.typeName, h.variant]

theorem sameType (hv : Alike F v v') (hw : Alike F w w') : v.sameType w = v'.sameType w' := by
  rw [Value.sameType, Value.sameType, hv.variant, hw.variant]

end Alike

/-! ## Operators -/

section Operators

variable {v w v' w' : Value ε}

theorem asNumber_alike (h : Alike F v w) : v.asNumber = w.asNumber := by
  obtain ⟨_, rfl⟩ | ⟨_, _, rfl, rfl, _⟩ | ⟨_, _, rfl, rfl, _⟩ := h.cases <;> rfl

theorem arithmetic_alike (op : Int → Int → Int) (hv : Alike F v v') (hw : Alike F w w') :
    arithmetic op v w = arithmetic op v' w' := by
  rw [arithmetic, arithmetic, asNumber_alike hv, asNumber_alike hw]

theorem inverse_alike (h : Alike F v w) : v.inverse = w.inverse := by
  obtain ⟨_, rfl⟩ | ⟨_, _, rfl, rfl, _⟩ | ⟨_, _, rfl, rfl, _⟩ := h.cases <;> rfl

theorem compareInequality_alike (op : String) (hv : Alike F v v') (hw : Alike F w w') :
    compareInequality op v w = compareInequality op v' w' := by
  obtain ⟨_, rfl⟩ | ⟨_, _, rfl, rfl, _⟩ | ⟨_, _, rfl, rfl, _⟩ := hv.cases
  · obtain ⟨_, rfl⟩ | ⟨_, _, rfl, rfl, _⟩ | ⟨_, _, rfl, rfl, _⟩ := hw.cases
    · rfl
    · cases v <;> rfl
    · cases v <;> rfl
  · rfl
  · rfl

variable [BEq ε]

/-- Related functions are told apart in the same way. -/
def TellsApart (F : Function ε → Function ε → Prop) : Prop :=
  ∀ f g f' g', F f f' → F g g' → f.same g = f'.same g'

theorem compare_alike (hF : TellsApart F) (loose : Bool) (hv : Alike F v v') (hw : Alike F w w') :
    v.compare loose w = v'.compare loose w' := by
  have ht := hv.sameType hw
  obtain ⟨hs, rfl⟩ | ⟨_, _, rfl, rfl, _⟩ | ⟨f, f', rfl, rfl, hf⟩ := hv.cases
  · obtain ⟨_, rfl⟩ | ⟨_, _, rfl, rfl, _⟩ | ⟨_, _, rfl, rfl, _⟩ := hw.cases
    · rfl
    · cases v <;> simp only [compare, ht]
    · cases v with
      | function _ => exact hs.elim
      | _ => simp only [compare, ht]
  · obtain ⟨_, rfl⟩ | ⟨_, _, rfl, rfl, _⟩ | ⟨_, _, rfl, rfl, _⟩ := hw.cases <;>
      simp only [compare, ht]
  · obtain ⟨hs, rfl⟩ | ⟨_, _, rfl, rfl, _⟩ | ⟨g, g', rfl, rfl, hg⟩ := hw.cases
    · cases w with
      | function _ => exact hs.elim
      | _ => simp only [compare, ht]
    · simp only [compare, ht]
    · simp only [compare, hF f g f' g' hf hg]

/-- A binary operator has one result on alike operands. -/
theorem applyOperator_alike (hF : TellsApart F) (op : String) (hv : Alike F v v')
    (hw : Alike F w w') : v.applyOperator op w = v'.applyOperator op w' := by
  simp only [applyOperator, compare_alike hF _ hv hw, compareInequality_alike op hv hw, add, subtract,
    multiply, arithmetic_alike _ hv hw]

omit [BEq ε] in
/-- A unary operator has one result on alike operands. -/
theorem applyUnary_alike (op : String) (h : Alike F v w) : v.applyUnary op = w.applyUnary op := by
  simp only [applyUnary, negate, asNumber_alike h, inverse_alike h]

end Operators

end Value

/-! ## Slots and scopes -/

theorem Slot.assign_alike {s t : Slot ε} {v w : Value ε} (hs : s.Alike F t) (hv : v.Alike F w) :
    Agree Eq (Slot.Alike F) (s.assign v) (t.assign w) := by
  rw [Slot.assign, Slot.assign, hs.2.2.sameType hv, hs.2.1]
  split
  · exact .error rfl
  · split
    · exact .error rfl
    · exact .ok ⟨hs.1, rfl, hv⟩

namespace Fields

variable {fs gs : List (Slot ε)}

theorem find?_alike (h : List.Forall₂ (Slot.Alike F) fs gs) (name : String) :
    Option.Rel (Slot.Alike F) (find? name fs) (find? name gs) := by
  induction h with
  | nil => exact .none
  | @cons s t fs gs hs _ ih =>
    rw [find?] at ih ⊢
    rw [find?, List.find?_cons, List.find?_cons, hs.1]
    split
    · exact .some hs
    · exact ih

theorem has_alike (h : List.Forall₂ (Slot.Alike F) fs gs) (name : String) :
    has name fs = has name gs := by
  have hfind := find?_alike h name
  rw [has_eq_isSome, has_eq_isSome]
  generalize find? name fs = found, find? name gs = found' at hfind
  cases hfind <;> rfl

theorem put_alike {s t : Slot ε} (hs : s.Alike F t) (h : List.Forall₂ (Slot.Alike F) fs gs) :
    List.Forall₂ (Slot.Alike F) (put s fs) (put t gs) := by
  induction h with
  | nil => exact .cons hs .nil
  | @cons a b fs gs ha hrest ih =>
    rw [put, put, ha.1, hs.1]
    split
    · exact .cons hs hrest
    · exact .cons ha ih

end Fields

/-- Scopes with alike slots in the same frames. -/
structure Scope.Alike (F : Function ε → Function ε → Prop) (s t : Scope ε) : Prop where
  top : List.Forall₂ (Slot.Alike F) s.top t.top
  outer : List.Forall₂ (List.Forall₂ (Slot.Alike F)) s.outer t.outer

namespace Scope.Alike

variable {s t : Scope ε}

theorem frames (h : Alike F s t) :
    List.Forall₂ (List.Forall₂ (Slot.Alike F)) s.frames t.frames :=
  .cons h.top h.outer

theorem of_frames {top top' : List (Slot ε)} {outer outer' : List (List (Slot ε))}
    (h : List.Forall₂ (List.Forall₂ (Slot.Alike F)) (top :: outer) (top' :: outer')) :
    Alike F ⟨top, outer⟩ ⟨top', outer'⟩ := by
  obtain ⟨htop, houter⟩ := List.forall₂_cons.1 h
  exact ⟨htop, houter⟩

theorem find? (h : Alike F s t) (name : String) :
    Option.Rel (Slot.Alike F) (s.find? name) (t.find? name) := by
  have hframes := h.frames
  rw [Scope.find?, Scope.find?]
  generalize s.frames = frames, t.frames = frames' at hframes
  induction hframes with
  | nil => exact .none
  | @cons frame frame' _ _ hframe _ ih =>
    have hfind := Fields.find?_alike hframe name
    rw [List.findSome?_cons, List.findSome?_cons]
    generalize Fields.find? name frame = found, Fields.find? name frame' = found' at hfind
    cases hfind with
    | none => exact ih
    | some hs => exact .some hs

theorem define {a b : Slot ε} (h : Alike F s t) (hs : a.Alike F b) :
    Agree Eq (Alike F) (s.define a) (t.define b) := by
  rw [Scope.define, Scope.define, Fields.define, Fields.define, hs.1, Fields.has_alike h.top]
  split
  · exact .error rfl
  · exact .ok ⟨List.rel_append h.top (.cons hs .nil), h.outer⟩

theorem set {a b : Slot ε} (h : Alike F s t) (hs : a.Alike F b) : Alike F (s.set a) (t.set b) :=
  ⟨Fields.put_alike hs h.top, h.outer⟩

theorem replace {a b : Slot ε} (h : Alike F s t) (hs : a.Alike F b) :
    Alike F (s.replace a) (t.replace b) := by
  have frames_alike : List.Forall₂ (List.Forall₂ (Slot.Alike F)) (replaceIn a s.frames)
      (replaceIn b t.frames) := by
    have hframes := h.frames
    generalize s.frames = frames, t.frames = frames' at hframes
    induction hframes with
    | nil => exact .nil
    | cons hframe hrest ih =>
      rw [replaceIn, replaceIn, hs.1, Fields.has_alike hframe]
      split
      · exact .cons (Fields.put_alike hs hframe) hrest
      · exact .cons hframe ih
  rw [← replace_frames, ← replace_frames] at frames_alike
  exact of_frames frames_alike

theorem empty : Alike F (Scope.empty : Scope ε) .empty :=
  ⟨.nil, .nil⟩

theorem push (h : Alike F s t) : Alike F s.push t.push :=
  ⟨.nil, h.frames⟩

theorem pop (h : Alike F s t) : Alike F s.pop t.pop := by
  obtain ⟨top, outer⟩ := s
  obtain ⟨top', outer'⟩ := t
  cases h.outer with
  | nil => exact h
  | cons hframe hrest => exact ⟨hframe, hrest⟩

theorem ofParams (params : List String) {vs ws : List (Value ε)}
    (h : List.Forall₂ (Value.Alike F) vs ws) :
    Alike F (Scope.ofParams params vs) (.ofParams params ws) := by
  have fold_alike : ∀ {params : List String} {vs ws : List (Value ε)} {s t : Scope ε},
      List.Forall₂ (Value.Alike F) vs ws → Alike F s t →
      Alike F ((params.zip vs).foldl (fun s p => s.set ⟨p.1, false, p.2⟩) s)
        ((params.zip ws).foldl (fun s p => s.set ⟨p.1, false, p.2⟩) t) := by
    intro params
    induction params with
    | nil => exact fun _ hst => hst
    | cons name params ih =>
      intro vs ws s t hvs hst
      cases hvs with
      | nil => exact hst
      | cons hv hrest => exact ih hrest (hst.set ⟨rfl, rfl, hv⟩)
  exact fold_alike h empty

end Scope.Alike

/-! ## Paths -/

theorem Step.follow_alike {find find' : String → Option (Slot ε)}
    (h : ∀ n, Option.Rel (Slot.Alike F) (find n) (find' n)) (step : Step) :
    Agree Eq (Slot.Alike F) (step.follow find) (step.follow find') := by
  cases step with
  | other text => exact .error rfl
  | name n =>
    have hn := h n
    rw [follow, follow]
    generalize find n = found, find' n = found' at hn
    cases hn with
    | none => exact .error rfl
    | some hs => exact .ok hs

namespace Slot

variable {s t : Slot ε} {store store' : Store ε}

theorem resolve_alike (steps : List Step) (h : s.Alike F t) :
    Agree Eq (Slot.Alike F) (s.resolve store steps) (t.resolve store' steps) := by
  induction steps generalizing s t with
  | nil => exact .ok h
  | cons step rest ih =>
    rw [resolve, resolve]
    obtain ⟨hs, hv⟩ | ⟨fs, gs, hv, hw, hfields⟩ | ⟨f, g, hv, hw, _⟩ := h.2.2.cases
    · rw [← hv]
      cases hvalue : s.value with
      | object _ | function _ | shared _ _ => rw [hvalue] at hs; exact hs.elim
      | _ => exact .error rfl
    · rw [hv, hw]
      exact (Step.follow_alike (Fields.find?_alike hfields) step).bind fun _ _ => ih
    · rw [hv, hw]
      exact .error rfl

/-- A change of alike slots leaves alike slots, and no store is touched. -/
theorem modify_alike {f g : Slot ε → Except Failure (Slot ε)}
    (hf : ∀ a b, a.Alike F b → Agree Eq (Slot.Alike F) (f a) (g b)) (steps : List Step)
    (h : s.Alike F t) :
    Agree Eq (fun c d => ∃ a b, c = .slot a ∧ d = .slot b ∧ a.Alike F b)
      (s.modify store f steps) (t.modify store' g steps) := by
  induction steps generalizing s t with
  | nil => exact (hf s t h).map fun a b hab => ⟨a, b, rfl, rfl, hab⟩
  | cons step rest ih =>
    rw [modify, modify]
    obtain ⟨hs, hv⟩ | ⟨fs, gs, hv, hw, hfields⟩ | ⟨f, g, hv, hw, _⟩ := h.2.2.cases
    · rw [← hv]
      cases hvalue : s.value with
      | object _ | function _ | shared _ _ => rw [hvalue] at hs; exact hs.elim
      | _ => exact .error rfl
    · rw [hv, hw]
      have hfollow := (Step.follow_alike (Fields.find?_alike hfields) step).mapError
        fun _ _ => congrArg Failure.error
      refine hfollow.bind fun a b hab => (ih hab).bind ?_
      rintro _ _ ⟨c, d, rfl, rfl, hcd⟩
      refine .ok ⟨_, _, rfl, rfl, h.1, h.2.1, ?_⟩
      exact Value.alike_object.2 (Fields.put_alike hcd hfields)
    · rw [hv, hw]
      exact .error rfl

end Slot

namespace Scope.Alike

variable {s t : Scope ε} {store store' : Store ε}

theorem resolve (h : Alike F s t) (path : Path) :
    Agree Eq (Slot.Alike F) (s.resolve store path) (t.resolve store' path) :=
  (Step.follow_alike h.find? path.first).bind fun _ _ => Slot.resolve_alike path.rest

theorem modify {f g : Slot ε → Except Failure (Slot ε)}
    (hf : ∀ a b, a.Alike F b → Agree Eq (Slot.Alike F) (f a) (g b)) (h : Alike F s t) (path : Path) :
    Agree Eq (fun p q => Alike F p.1 q.1 ∧ p.2 = store ∧ q.2 = store')
      (s.modify store path f) (t.modify store' path g) := by
  have hfollow := (Step.follow_alike h.find? path.first).mapError fun _ _ => congrArg Failure.error
  refine hfollow.bind fun a b hab => (Slot.modify_alike hf path.rest hab).bind ?_
  rintro _ _ ⟨c, d, rfl, rfl, hcd⟩
  exact .ok ⟨h.replace hcd, rfl, rfl⟩

end Scope.Alike

end Scriptlet
