import Scriptlet.Proofs.Conduct
import Scriptlet.Proofs.TreeMaps

/-!
# Values whose function bodies are rewritten

A value has code in it only in the bodies of its script functions.  What the language can find out
about a value does not depend on them: operators, texts, look-up, copies and changes along a path take
a value with other bodies to a result with other bodies, whatever the bodies are rewritten to.
-/

namespace Scriptlet

set_option autoImplicit false

variable {ε : Type}

/-! ## Rewriting trees -/

/-- Whether a form stands for a value. -/
def Form.isEvaluable : Form → Bool
  | .number _ | .string _ | .boolean _ | .null | .ident _ | .member _ _ | .group _ | .call _ _
  | .ternary _ _ _ | .assign _ _ _ | .chain _ _ _ | .unary _ _ => true
  | _ => false

theorem Form.isEvaluable_map (form : Form) (place : Location → Location) (f : Node → Node) :
    (form.map place f).isEvaluable = form.isEvaluable := by
  cases form with
  | ret expr => cases expr <;> rfl
  | _ => rfl

/-- A way to rewrite trees and the places in them. -/
structure Rewriting where
  place : Location → Location
  node : Node → Node

namespace Rewriting

/-- A function body of which the statements are rewritten. -/
def body (ρ : Rewriting) (b : Block) : Block :=
  ⟨b.loc.map ρ.place, b.statements.map ρ.node⟩

/-- One rewriting after another. -/
def comp (ρ' ρ : Rewriting) : Rewriting :=
  ⟨ρ'.place ∘ ρ.place, ρ'.node ∘ ρ.node⟩

theorem body_comp (ρ' ρ : Rewriting) (b : Block) : (ρ'.comp ρ).body b = ρ'.body (ρ.body b) := by
  simp only [body, comp, Option.map_map, List.map_map]

/-- A rewriting that keeps the texts of places, and in which every node keeps its form, with the place
and the nodes in it rewritten, or is a group that makes room for its expression. -/
structure Faithful (ρ : Rewriting) : Prop where
  text : ∀ loc, (ρ.place loc).text = loc.text
  node : ∀ loc form, ρ.node ⟨loc, form⟩ = ⟨loc.map ρ.place, form.map ρ.place ρ.node⟩ ∨
    ∃ expr, form = .group expr ∧ expr.loc.isSome ∧ expr.form.isEvaluable ∧
      ρ.node ⟨loc, form⟩ = ρ.node expr

end Rewriting

/-! ## Values -/

/-- A script function whose body is rewritten. -/
def ScriptFunction.rewritten (ρ : Rewriting) (f : ScriptFunction) : ScriptFunction :=
  { f with body := ρ.body f.body }

/-- A callback whose body, if it has one, is rewritten. -/
def Callback.rewritten (ρ : Rewriting) : Callback ε → Callback ε
  | script id function => script id (function.rewritten ρ)
  | builtin b => builtin b
  | host e => host e

/-- A function whose body, if it has one, is rewritten. -/
def Function.rewritten (ρ : Rewriting) (f : Function ε) : Function ε :=
  { f with callback := f.callback.rewritten ρ }

namespace Value

mutual

/-- A value whose function bodies are rewritten. -/
def rewritten (ρ : Rewriting) : Value ε → Value ε
  | number n => number n
  | boolean b => boolean b
  | string s => string s
  | null => null
  | object fields => object (rewrittenFields ρ fields)
  | function f => function (f.rewritten ρ)
  | shared holder place => shared holder place

/-- Fields whose function bodies are rewritten. -/
def rewrittenFields (ρ : Rewriting) : List (Slot ε) → List (Slot ε)
  | [] => []
  | ⟨name, isMutable, value⟩ :: rest => ⟨name, isMutable, value.rewritten ρ⟩ :: rewrittenFields ρ rest

end

end Value

/-- A slot whose function bodies are rewritten. -/
def Slot.rewritten (ρ : Rewriting) (s : Slot ε) : Slot ε :=
  { s with value := s.value.rewritten ρ }

variable {ρ : Rewriting}

@[simp] theorem Slot.name_rewritten (s : Slot ε) : (s.rewritten ρ).name = s.name := rfl

@[simp] theorem Slot.isMutable_rewritten (s : Slot ε) : (s.rewritten ρ).isMutable = s.isMutable := rfl

theorem Value.rewrittenFields_eq_map (fields : List (Slot ε)) :
    rewrittenFields ρ fields = fields.map (Slot.rewritten ρ) := by
  induction fields with
  | nil => rfl
  | cons s rest ih =>
    obtain ⟨name, isMutable, value⟩ := s
    rw [rewrittenFields, ih, List.map_cons]
    rfl

@[simp] theorem Value.rewritten_object (fields : List (Slot ε)) :
    (object fields).rewritten ρ = object (fields.map (Slot.rewritten ρ)) := by
  rw [rewritten, rewrittenFields_eq_map]

namespace Value

variable {v w : Value ε}

theorem IsScalar.rewritten (h : v.IsScalar) : v.rewritten ρ = v := by
  cases v with
  | object _ | function _ | shared _ _ => exact h.elim
  | _ => rfl

theorem variant_rewritten (v : Value ε) : (v.rewritten ρ).variant = v.variant := by
  cases v <;> rfl

theorem text_rewritten (v : Value ε) : (v.rewritten ρ).text = v.text := by
  cases v <;> rfl

theorem typeName_rewritten (v : Value ε) : (v.rewritten ρ).typeName = v.typeName := by
  rw [typeName, typeName, variant_rewritten]

theorem sameType_rewritten (v w : Value ε) :
    (v.rewritten ρ).sameType (w.rewritten ρ) = v.sameType w := by
  rw [sameType, sameType, variant_rewritten, variant_rewritten]

theorem asNumber_rewritten (v : Value ε) : (v.rewritten ρ).asNumber = v.asNumber := by
  cases v <;> rfl

theorem inverse_rewritten (v : Value ε) : (v.rewritten ρ).inverse = v.inverse := by
  cases v <;> rfl

theorem arithmetic_rewritten (op : Int → Int → Int) (v w : Value ε) :
    arithmetic op (v.rewritten ρ) (w.rewritten ρ) = arithmetic op v w := by
  rw [arithmetic, arithmetic, asNumber_rewritten, asNumber_rewritten]

theorem compareInequality_rewritten (op : String) (v w : Value ε) :
    compareInequality op (v.rewritten ρ) (w.rewritten ρ) = compareInequality op v w := by
  cases v <;> cases w <;> rfl

end Value

section Same

variable [BEq ε]

theorem Function.same_rewritten (f g : Function ε) :
    (f.rewritten ρ).same (g.rewritten ρ) = f.same g := by
  obtain ⟨callback, arity, name⟩ := f
  obtain ⟨callback', arity', name'⟩ := g
  cases callback <;> cases callback' <;> rfl

theorem Value.compare_rewritten (loose : Bool) (v w : Value ε) :
    (v.rewritten ρ).compare loose (w.rewritten ρ) = v.compare loose w := by
  have htype : (v.rewritten ρ).sameType (w.rewritten ρ) = v.sameType w := sameType_rewritten v w
  cases v <;> cases w <;> simp_all [rewritten, compare, Function.same_rewritten]

/-- A binary operator does not see function bodies. -/
theorem Value.applyOperator_rewritten (v : Value ε) (op : String) (w : Value ε) :
    (v.rewritten ρ).applyOperator op (w.rewritten ρ) = v.applyOperator op w := by
  simp only [applyOperator, compare_rewritten, compareInequality_rewritten, add, subtract, multiply,
    arithmetic_rewritten]

omit [BEq ε] in
/-- A unary operator does not see function bodies. -/
theorem Value.applyUnary_rewritten (op : String) (v : Value ε) :
    (v.rewritten ρ).applyUnary op = v.applyUnary op := by
  simp only [applyUnary, negate, asNumber_rewritten, inverse_rewritten]

end Same

theorem Slot.assign_rewritten (s : Slot ε) (v : Value ε) :
    (s.rewritten ρ).assign (v.rewritten ρ) = (s.assign v).map (Slot.rewritten ρ) := by
  rw [Slot.assign, Slot.assign, isMutable_rewritten]
  simp only [Slot.rewritten, Value.sameType_rewritten]
  split
  · rfl
  · split <;> rfl

/-! ## Fields and scopes -/

namespace Fields

variable (fields : List (Slot ε))

theorem find?_rewritten (name : String) :
    find? name (fields.map (Slot.rewritten ρ)) = (find? name fields).map (Slot.rewritten ρ) := by
  rw [find?, find?, List.find?_map]
  rfl

theorem has_rewritten (name : String) : has name (fields.map (Slot.rewritten ρ)) = has name fields := by
  rw [has, has, List.any_map]
  rfl

theorem put_rewritten (slot : Slot ε) :
    put (slot.rewritten ρ) (fields.map (Slot.rewritten ρ)) =
      (put slot fields).map (Slot.rewritten ρ) := by
  induction fields with
  | nil => rfl
  | cons s rest ih =>
    rw [List.map_cons, put, put, ih, Slot.name_rewritten, Slot.name_rewritten]
    cases s.name == slot.name <;> rfl

theorem define_rewritten (slot : Slot ε) :
    define (slot.rewritten ρ) (fields.map (Slot.rewritten ρ)) =
      (define slot fields).map (List.map (Slot.rewritten ρ)) := by
  rw [define, define, Slot.name_rewritten, has_rewritten]
  split
  · rfl
  · show Except.ok _ = Except.ok _
    rw [List.map_append]
    rfl

end Fields

namespace Scope

/-- A scope whose function bodies are rewritten. -/
def rewritten (ρ : Rewriting) (s : Scope ε) : Scope ε :=
  ⟨s.top.map (Slot.rewritten ρ), s.outer.map (List.map (Slot.rewritten ρ))⟩

variable (s : Scope ε)

theorem frames_rewritten : (s.rewritten ρ).frames = s.frames.map (List.map (Slot.rewritten ρ)) := rfl

theorem find?_rewritten (name : String) :
    (s.rewritten ρ).find? name = (s.find? name).map (Slot.rewritten ρ) := by
  rw [find?, find?, frames_rewritten]
  generalize s.frames = frames
  induction frames with
  | nil => rfl
  | cons frame rest ih =>
    rw [List.map_cons, List.findSome?_cons, List.findSome?_cons, Fields.find?_rewritten, ih]
    cases Fields.find? name frame <;> rfl

theorem set_rewritten (slot : Slot ε) :
    (s.rewritten ρ).set (slot.rewritten ρ) = (s.set slot).rewritten ρ := by
  simp only [set, rewritten, Fields.put_rewritten]

theorem define_rewritten (slot : Slot ε) :
    (s.rewritten ρ).define (slot.rewritten ρ) = (s.define slot).map (rewritten ρ) := by
  rw [define, define, rewritten, Fields.define_rewritten]
  cases Fields.define slot s.top <;> rfl

theorem replaceIn_rewritten (slot : Slot ε) (frames : List (List (Slot ε))) :
    replaceIn (slot.rewritten ρ) (frames.map (List.map (Slot.rewritten ρ))) =
      (replaceIn slot frames).map (List.map (Slot.rewritten ρ)) := by
  induction frames with
  | nil => rfl
  | cons frame rest ih =>
    rw [List.map_cons, replaceIn, replaceIn, Slot.name_rewritten, Fields.has_rewritten, ih,
      Fields.put_rewritten]
    split <;> rfl

theorem replace_rewritten (slot : Slot ε) :
    (s.rewritten ρ).replace (slot.rewritten ρ) = (s.replace slot).rewritten ρ := by
  rw [replace, replace, hasOnTop, hasOnTop, rewritten, Slot.name_rewritten, Fields.has_rewritten,
    Fields.put_rewritten, replaceIn_rewritten]
  split <;> rfl

theorem pop_rewritten : (s.rewritten ρ).pop = s.pop.rewritten ρ := by
  obtain ⟨top, _ | ⟨frame, rest⟩⟩ := s <;> rfl

theorem ofParams_rewritten (params : List String) (args : List (Value ε)) :
    ofParams params (args.map (Value.rewritten ρ)) = (ofParams params args).rewritten ρ := by
  have fold_rewritten : ∀ (pairs : List (String × Value ε)) (s : Scope ε),
      (pairs.map (Prod.map id (Value.rewritten ρ))).foldl (fun s p => s.set ⟨p.1, false, p.2⟩)
        (s.rewritten ρ) = (pairs.foldl (fun s p => s.set ⟨p.1, false, p.2⟩) s).rewritten ρ := by
    intro pairs
    induction pairs with
    | nil => exact fun _ => rfl
    | cons p rest ih =>
      intro s
      rw [List.map_cons, List.foldl_cons, List.foldl_cons, ← ih, ← set_rewritten]
      rfl
  rw [ofParams, ofParams, List.zip_map_right]
  exact fold_rewritten _ empty

end Scope

/-! ## Shared objects -/

namespace Store

/-- A store whose function bodies are rewritten. -/
def rewritten (ρ : Rewriting) (s : Store ε) : Store ε :=
  ⟨s.objects.map (List.map (Slot.rewritten ρ))⟩

variable (s : Store ε)

theorem fields_rewritten (place : Nat) :
    (s.rewritten ρ).fields place = (s.fields place).map (Slot.rewritten ρ) := by
  rw [fields, fields, rewritten, List.getD_eq_getElem?_getD, List.getD_eq_getElem?_getD,
    List.getElem?_map]
  cases s.objects[place]? <;> rfl

theorem setFields_rewritten (place : Nat) (fields : List (Slot ε)) :
    (s.rewritten ρ).setFields place (fields.map (Slot.rewritten ρ)) =
      (s.setFields place fields).rewritten ρ := by
  rw [setFields, setFields, rewritten, rewritten, List.map_set]

end Store

namespace Value

mutual

theorem copyWith_rewritten {fieldsAt fieldsAt' : Nat → Except Breakdown (List (Slot ε))}
    (h : ∀ place, fieldsAt' place = (fieldsAt place).map (List.map (Slot.rewritten ρ))) :
    (v : Value ε) → (v.rewritten ρ).copyWith fieldsAt' = (v.copyWith fieldsAt).map (rewritten ρ)
  | number _ | boolean _ | string _ | null | function _ => rfl
  | object fields => by
    rw [rewritten, copyWith, copyWith, copyFieldsWith_rewritten h fields]
    cases copyFieldsWith fieldsAt fields with
    | error b => rfl
    | ok copied => exact congrArg Except.ok (rewritten_object copied).symm
  | shared holder place => by
    rw [rewritten, copyWith, copyWith, h]
    cases fieldsAt place with
    | error b => rfl
    | ok copied => exact congrArg Except.ok (rewritten_object copied).symm

theorem copyFieldsWith_rewritten {fieldsAt fieldsAt' : Nat → Except Breakdown (List (Slot ε))}
    (h : ∀ place, fieldsAt' place = (fieldsAt place).map (List.map (Slot.rewritten ρ))) :
    (fields : List (Slot ε)) → copyFieldsWith fieldsAt' (rewrittenFields ρ fields) =
      (copyFieldsWith fieldsAt fields).map (List.map (Slot.rewritten ρ))
  | [] => rfl
  | ⟨name, isMutable, value⟩ :: rest => by
    rw [rewrittenFields, copyFieldsWith, copyFieldsWith, copyWith_rewritten h value,
      copyFieldsWith_rewritten h rest]
    cases copyWith fieldsAt value with
    | error b => rfl
    | ok copied => cases copyFieldsWith fieldsAt rest <;> rfl

end

end Value

namespace Store

variable (s : Store ε)

theorem copyFields_rewritten (depth place : Nat) :
    (s.rewritten ρ).copyFields depth place =
      (s.copyFields depth place).map (List.map (Slot.rewritten ρ)) := by
  induction depth generalizing place with
  | zero => rfl
  | succ depth ih =>
    rw [copyFields, copyFields, fields_rewritten, ← Value.rewrittenFields_eq_map]
    exact Value.copyFieldsWith_rewritten ih _

theorem copy_rewritten (v : Value ε) :
    (s.rewritten ρ).copy (v.rewritten ρ) = (s.copy v).map (Value.rewritten ρ) := by
  rw [copy, copy, rewritten, List.length_map]
  exact Value.copyWith_rewritten (s.copyFields_rewritten _) v

theorem copyAll_rewritten (vs : List (Value ε)) :
    (s.rewritten ρ).copyAll (vs.map (Value.rewritten ρ)) =
      (s.copyAll vs).map (List.map (Value.rewritten ρ)) := by
  induction vs with
  | nil => rfl
  | cons v rest ih =>
    rw [List.map_cons, copyAll, copyAll, copy_rewritten, ih]
    cases s.copy v with
    | error b => rfl
    | ok copied => cases s.copyAll rest <;> rfl

end Store

/-! ## Paths -/

theorem Value.fields?_rewritten (store : Store ε) (v : Value ε) :
    (v.rewritten ρ).fields? (store.rewritten ρ) =
      (v.fields? store).map (List.map (Slot.rewritten ρ)) := by
  cases v with
  | object fields => rw [rewritten_object]; rfl
  | shared holder place => exact congrArg some (store.fields_rewritten place)
  | _ => rfl

theorem Step.follow_rewritten {find find' : String → Option (Slot ε)}
    (h : ∀ n, find' n = (find n).map (Slot.rewritten ρ)) (step : Step) :
    step.follow find' = (step.follow find).map (Slot.rewritten ρ) := by
  cases step with
  | other text => rfl
  | name n =>
    rw [follow, follow, h]
    cases find n <;> rfl

namespace Slot

theorem resolve_rewritten (store : Store ε) (steps : List Step) (s : Slot ε) :
    (s.rewritten ρ).resolve (store.rewritten ρ) steps =
      (s.resolve store steps).map (Slot.rewritten ρ) := by
  induction steps generalizing s with
  | nil => rfl
  | cons step rest ih =>
    rw [resolve, resolve, show (s.rewritten ρ).value = s.value.rewritten ρ from rfl,
      Value.fields?_rewritten]
    cases s.value.fields? store with
    | none => rfl
    | some fields =>
      show (step.follow _ >>= _) = Except.map _ (step.follow _ >>= _)
      rw [Step.follow_rewritten (Fields.find?_rewritten fields)]
      cases step.follow (Fields.find? · fields) with
      | error cause => rfl
      | ok field => exact ih field

end Slot

/-- A change whose function bodies are rewritten. -/
def Change.rewritten (ρ : Rewriting) : Change ε → Change ε
  | slot s => slot (s.rewritten ρ)
  | store s => store (s.rewritten ρ)

namespace Slot

/-- A change of the field that the steps lead to, `within` which the field is changed. -/
def modifyField (store : Store ε) (f : Slot ε → Except Failure (Slot ε)) (step : Step)
    (rest : List Step) (fields : List (Slot ε)) (within : Slot ε → Change ε) :
    Except Failure (Change ε) := do
  let field ← (step.follow (Fields.find? · fields)).mapError .error
  match ← modify store f rest field with
  | .slot changed => .ok (within changed)
  | .store changed => .ok (.store changed)

variable {f f' : Slot ε → Except Failure (Slot ε)} {store : Store ε} {step : Step} {rest : List Step}

theorem modify_object (name : String) (isMutable : Bool) (fields : List (Slot ε)) :
    modify store f (step :: rest) ⟨name, isMutable, .object fields⟩ =
      modifyField store f step rest fields fun changed =>
        .slot ⟨name, isMutable, .object (Fields.put changed fields)⟩ := by
  rw [modify]
  rfl

theorem modify_shared (name : String) (isMutable : Bool) (holder : ε) (place : Nat) :
    modify store f (step :: rest) ⟨name, isMutable, .shared holder place⟩ =
      modifyField store f step rest (store.fields place) fun changed =>
        .store (store.setFields place (Fields.put changed (store.fields place))) := by
  rw [modify]
  rfl

theorem modifyField_rewritten
    (h : ∀ s : Slot ε, (s.rewritten ρ).modify (store.rewritten ρ) f' rest =
      (s.modify store f rest).map (Change.rewritten ρ))
    (fields : List (Slot ε)) {within within' : Slot ε → Change ε}
    (hw : ∀ changed, within' (changed.rewritten ρ) = (within changed).rewritten ρ) :
    modifyField (store.rewritten ρ) f' step rest (fields.map (Slot.rewritten ρ)) within' =
      (modifyField store f step rest fields within).map (Change.rewritten ρ) := by
  rw [modifyField, modifyField, Step.follow_rewritten (Fields.find?_rewritten fields)]
  cases step.follow (Fields.find? · fields) with
  | error cause => rfl
  | ok field =>
    show (field.rewritten ρ).modify (store.rewritten ρ) f' rest >>= _ =
      Except.map _ (field.modify store f rest >>= _)
    rw [h]
    cases field.modify store f rest with
    | error failure => rfl
    | ok change =>
      cases change with
      | slot changed => exact congrArg Except.ok (hw changed)
      | store changed => rfl

theorem modify_rewritten (hf : ∀ s, f' (s.rewritten ρ) = (f s).map (Slot.rewritten ρ))
    (steps : List Step) (s : Slot ε) :
    (s.rewritten ρ).modify (store.rewritten ρ) f' steps =
      (s.modify store f steps).map (Change.rewritten ρ) := by
  induction steps generalizing s with
  | nil =>
    rw [modify, modify, hf]
    cases f s <;> rfl
  | cons step rest ih =>
    obtain ⟨name, isMutable, value⟩ := s
    cases value with
    | object fields =>
      rw [rewritten, Value.rewritten_object, modify_object, modify_object]
      refine modifyField_rewritten ih fields fun changed => ?_
      rw [Fields.put_rewritten]
      exact congrArg (fun v => Change.slot ⟨name, isMutable, v⟩) (Value.rewritten_object _).symm
    | shared holder place =>
      rw [rewritten, Value.rewritten, modify_shared, modify_shared, Store.fields_rewritten]
      refine modifyField_rewritten ih _ fun changed => ?_
      rw [Fields.put_rewritten, Store.setFields_rewritten]
      rfl
    | _ => rfl

end Slot

namespace Scope

variable (s : Scope ε)

theorem resolve_rewritten (store : Store ε) (path : Path) :
    (s.rewritten ρ).resolve (store.rewritten ρ) path =
      (s.resolve store path).map (Slot.rewritten ρ) := by
  rw [resolve, resolve, Step.follow_rewritten s.find?_rewritten]
  cases path.first.follow s.find? with
  | error cause => rfl
  | ok slot => exact slot.resolve_rewritten store path.rest

theorem modify_rewritten {f f' : Slot ε → Except Failure (Slot ε)}
    (hf : ∀ s, f' (s.rewritten ρ) = (f s).map (Slot.rewritten ρ)) (store : Store ε) (path : Path) :
    (s.rewritten ρ).modify (store.rewritten ρ) path f' =
      (s.modify store path f).map (Prod.map (rewritten ρ) (Store.rewritten ρ)) := by
  rw [modify, modify, Step.follow_rewritten s.find?_rewritten]
  cases path.first.follow s.find? with
  | error cause => rfl
  | ok slot =>
    show (slot.rewritten ρ).modify _ _ _ >>= _ = Except.map _ (slot.modify _ _ _ >>= _)
    rw [Slot.modify_rewritten hf]
    cases slot.modify store f path.rest with
    | error failure => rfl
    | ok change =>
      cases change with
      | slot changed => exact congrArg (fun s => Except.ok (s, _)) (s.replace_rewritten changed)
      | store changed => rfl

end Scope

/-! ## Rewriting twice -/

section Twice

variable {ρ' : Rewriting}

theorem Function.rewritten_rewritten (f : Function ε) :
    (f.rewritten ρ).rewritten ρ' = f.rewritten (ρ'.comp ρ) := by
  obtain ⟨callback, arity, name⟩ := f
  cases callback with
  | script id function =>
    simp only [rewritten, Callback.rewritten, ScriptFunction.rewritten, Rewriting.body_comp]
  | builtin b => rfl
  | host e => rfl

namespace Value

mutual

theorem rewritten_rewritten : (v : Value ε) →
    (v.rewritten ρ).rewritten ρ' = v.rewritten (ρ'.comp ρ)
  | number _ | boolean _ | string _ | null | shared _ _ => rfl
  | function f => congrArg function f.rewritten_rewritten
  | object fields => congrArg object (rewrittenFields_rewrittenFields fields)

theorem rewrittenFields_rewrittenFields : (fields : List (Slot ε)) →
    rewrittenFields ρ' (rewrittenFields ρ fields) = rewrittenFields (ρ'.comp ρ) fields
  | [] => rfl
  | ⟨name, isMutable, value⟩ :: rest => by
    rw [rewrittenFields, rewrittenFields, rewrittenFields, rewritten_rewritten value,
      rewrittenFields_rewrittenFields rest]

end

end Value

theorem Slot.rewritten_comp :
    Slot.rewritten ρ' ∘ Slot.rewritten ρ = (Slot.rewritten (ρ'.comp ρ) : Slot ε → Slot ε) :=
  funext fun s => congrArg (Slot.mk s.name s.isMutable) s.value.rewritten_rewritten

theorem Slot.map_rewritten_comp : List.map (Slot.rewritten ρ') ∘ List.map (Slot.rewritten ρ) =
    List.map (Slot.rewritten (ρ'.comp ρ) : Slot ε → Slot ε) := by
  funext slots
  rw [Function.comp_apply, List.map_map, rewritten_comp]

theorem Scope.rewritten_rewritten (s : Scope ε) :
    (s.rewritten ρ).rewritten ρ' = s.rewritten (ρ'.comp ρ) := by
  simp only [rewritten, List.map_map, Slot.rewritten_comp, Slot.map_rewritten_comp]

theorem Store.rewritten_rewritten (s : Store ε) :
    (s.rewritten ρ).rewritten ρ' = s.rewritten (ρ'.comp ρ) := by
  simp only [rewritten, List.map_map, Slot.map_rewritten_comp]

end Twice

/-! ## Rewriting to the same -/

section Congr

variable {ρ' : Rewriting} {P : Function ε → Prop} {S : Prop}

namespace Value

mutual

/-- Two rewritings that agree on the functions in a value agree on the value. -/
theorem rewritten_congr (hP : ∀ f, P f → f.rewritten ρ = f.rewritten ρ') :
    (v : Value ε) → v.Holds P S → v.rewritten ρ = v.rewritten ρ'
  | number _, _ | boolean _, _ | string _, _ | null, _ | shared _ _, _ => rfl
  | function f, h => congrArg function (hP f h)
  | object fields, h => congrArg object (rewrittenFields_congr hP fields h)

theorem rewrittenFields_congr (hP : ∀ f, P f → f.rewritten ρ = f.rewritten ρ') :
    (fields : List (Slot ε)) → FieldsHold P S fields →
      rewrittenFields ρ fields = rewrittenFields ρ' fields
  | [], _ => rfl
  | ⟨name, isMutable, value⟩ :: rest, h => by
    rw [rewrittenFields, rewrittenFields, rewritten_congr hP value h.1,
      rewrittenFields_congr hP rest h.2]

end

end Value

theorem Slot.map_rewritten_congr (hP : ∀ f, P f → f.rewritten ρ = f.rewritten ρ')
    {slots : List (Slot ε)} (h : ∀ slot ∈ slots, slot.value.Holds P S) :
    slots.map (Slot.rewritten ρ) = slots.map (Slot.rewritten ρ') :=
  List.map_congr_left fun slot hslot =>
    congrArg (Slot.mk slot.name slot.isMutable) (slot.value.rewritten_congr hP (h slot hslot))

theorem Scope.rewritten_congr (hP : ∀ f, P f → f.rewritten ρ = f.rewritten ρ') {s : Scope ε}
    (h : s.Holds P S) : s.rewritten ρ = s.rewritten ρ' := by
  obtain ⟨top, outer⟩ := s
  have htop : ∀ slot ∈ top, slot.value.Holds P S := h top List.mem_cons_self
  have houter : ∀ frame ∈ outer, frame.map (Slot.rewritten ρ) = frame.map (Slot.rewritten ρ') :=
    fun frame hframe => Slot.map_rewritten_congr hP (h frame (List.mem_cons_of_mem _ hframe))
  rw [rewritten, rewritten, Slot.map_rewritten_congr hP htop, List.map_congr_left houter]

theorem Store.rewritten_congr (hP : ∀ f, P f → f.rewritten ρ = f.rewritten ρ') {s : Store ε}
    (h : s.Holds P S) : s.rewritten ρ = s.rewritten ρ' :=
  congrArg Store.mk (List.map_congr_left fun fields hfields =>
    Slot.map_rewritten_congr hP (Store.holds_iff.1 h fields hfields))

end Congr

end Scriptlet
