import Scriptlet.Proofs.Standing
import Scriptlet.Proofs.ReadingPieces

/-!
# Where the nodes of a tree stand

`Lexer.places` counts out where the tokens of a source stand, and `Node.Stands` which token of a tree
is the first one of a node in it.  In the tree of a source every node is located from the start of
its first token to the end of its last one, so its children lie inside it, one behind the other
(`Parser.nodes_located`).
-/

namespace Scriptlet

set_option autoImplicit false

/-! ## Spans -/

/-- A stretch of a source, from the offset `start` up to the offset `stop`. -/
structure Span where
  start : Nat
  stop : Nat
deriving DecidableEq, Repr

namespace Span

/-- The text of a stretch. -/
def slice (source : List Char) (s : Span) : String :=
  String.ofList ((source.take s.stop).drop s.start)

/-- The location of a stretch: the line and column where it starts, and its text. -/
def location (source : List Char) (s : Span) : Location :=
  ⟨lineBehind (source.take s.start), colBehind (source.take s.start), some (s.slice source)⟩

/-- From the start of the `i`-th stretch to the end of the last one of `k`. -/
def hull (spans : List Span) (i k : Nat) : Option Span := do
  let first ← spans[i]?
  let last ← spans[i + k - 1]?
  return ⟨first.start, last.stop⟩

/-- Stretches one behind the other. -/
structure Ordered (spans : List Span) : Prop where
  start_le_stop : ∀ s ∈ spans, s.start ≤ s.stop
  pairwise : spans.Pairwise (·.stop ≤ ·.start)

variable {spans : List Span} {a b : Span} {i j k m : Nat}

theorem hull_eq_some (h : hull spans i k = some a) :
    ∃ first last, spans[i]? = some first ∧ spans[i + k - 1]? = some last ∧
      a = ⟨first.start, last.stop⟩ := by
  obtain ⟨first, hfirst, h⟩ := Option.bind_eq_some_iff.1 h
  obtain ⟨last, hlast, h⟩ := Option.bind_eq_some_iff.1 h
  exact ⟨first, last, hfirst, hlast, (Option.some.inj h).symm⟩

theorem Ordered.stop_le_start (h : Ordered spans) (hij : i < j) (hi : spans[i]? = some a)
    (hj : spans[j]? = some b) : a.stop ≤ b.start := by
  obtain ⟨hilt, rfl⟩ := List.getElem?_eq_some_iff.1 hi
  obtain ⟨hjlt, rfl⟩ := List.getElem?_eq_some_iff.1 hj
  exact List.pairwise_iff_getElem.1 h.pairwise i j hilt hjlt hij

theorem Ordered.le (h : Ordered spans) (hij : i ≤ j) (hi : spans[i]? = some a)
    (hj : spans[j]? = some b) : a.start ≤ b.start ∧ a.stop ≤ b.stop := by
  have ha := h.start_le_stop a (List.mem_of_getElem? hi)
  have hb := h.start_le_stop b (List.mem_of_getElem? hj)
  rcases Nat.lt_or_eq_of_le hij with hlt | rfl
  · have := h.stop_le_start hlt hi hj
    omega
  · obtain rfl := Option.some.inj (hi.symm.trans hj)
    exact ⟨Nat.le_refl _, Nat.le_refl _⟩

/-- The hull of some of the stretches lies in the hull of more of them. -/
theorem Ordered.hull_inside (h : Ordered spans) (hij : i ≤ j) (hjm : j + m ≤ i + k)
    (ha : hull spans i k = some a) (hb : hull spans j m = some b) :
    a.start ≤ b.start ∧ b.stop ≤ a.stop := by
  obtain ⟨first, last, hfirst, hlast, rfl⟩ := hull_eq_some ha
  obtain ⟨first', last', hfirst', hlast', rfl⟩ := hull_eq_some hb
  exact ⟨(h.le hij hfirst hfirst').1, (h.le (by omega) hlast' hlast).2⟩

/-- Hulls of stretches one behind the other are so too. -/
theorem Ordered.hull_before (h : Ordered spans) (hk : 0 < k) (hij : i + k ≤ j)
    (ha : hull spans i k = some a) (hb : hull spans j m = some b) : a.stop ≤ b.start := by
  obtain ⟨first, last, hfirst, hlast, rfl⟩ := hull_eq_some ha
  obtain ⟨first', last', hfirst', hlast', rfl⟩ := hull_eq_some hb
  have hlt : i + k - 1 < j := by omega
  have hle := h.stop_le_start hlt hlast hfirst'
  exact hle

end Span

/-- The location of a place of a source is that of a stretch from there on. -/
theorem Cursor.In.locate {source : List Char} {c : Cursor} (h : c.In source) (stop : Nat) :
    c.locate stop = Span.location source ⟨c.offset, stop⟩ := by
  obtain ⟨before, rfl, hb⟩ := h
  rw [Cursor.locate, Span.location, Span.slice, hb.line, hb.col, hb.offset, List.drop_take,
    List.take_left, List.drop_left]

/-! ## Where tokens stand -/

/-- Where a token stands. -/
def Token.span (t : Token) : Span :=
  ⟨t.start.offset, t.stop⟩

namespace Lexer

/-- Where tokens of the given texts stand in what is left of a source from an offset on, each behind
the blanks and comments in front of it. -/
def places (offset : Nat) (cs : List Char) : List String → List Span
  | [] => []
  | text :: rest =>
    let start := offset + gapLength cs
    let stop := start + text.length
    ⟨start, stop⟩ :: places stop (cs.drop (gapLength cs + text.length)) rest

theorem le_places {offset : Nat} {cs : List Char} {texts : List String} :
    ∀ s ∈ places offset cs texts, offset ≤ s.start ∧ s.start ≤ s.stop := by
  induction texts generalizing offset cs with
  | nil => exact List.forall_mem_nil _
  | cons text rest ih =>
    rw [places, List.forall_mem_cons]
    refine ⟨⟨Nat.le_add_right _ _, Nat.le_add_right _ _⟩, fun s hs => ?_⟩
    have := ih s hs
    omega

theorem places_ordered (offset : Nat) (cs : List Char) (texts : List String) :
    Span.Ordered (places offset cs texts) := by
  refine ⟨fun s hs => (le_places s hs).2, ?_⟩
  induction texts generalizing offset cs with
  | nil => exact .nil
  | cons text rest ih => exact .cons (fun s hs => (le_places s hs).1) (ih _ _)

/-- The tokens are cut from a place on, with nothing but blanks and comments between them. -/
inductive Cuts : Cursor → List Token → Prop where
  | nil (place : Cursor) : Cuts place []
  | token {place : Cursor} (terminal : Terminal) {n : Nat} {us : List Token} :
      n ≤ (skip place).rest.length → Cuts ((skip place).advance n) us →
      Cuts place (tokenAt (skip place) terminal n :: us)

namespace Cuts

variable {place : Cursor} {us : List Token} {source : List Char}

/-- Tokens stand where their texts are counted out. -/
theorem span_eq (h : Cuts place us) :
    us.map Token.span = places place.offset place.rest (us.map (·.text)) := by
  induction h with
  | nil place => rfl
  | @token place terminal n us hn _ ih =>
    have htext : (tokenAt (skip place) terminal n).text.length = n := by
      rw [tokenAt, String.length_ofList, List.length_take, Nat.min_eq_left hn]
    have hrest : ((skip place).advance n).rest = place.rest.drop (gapLength place.rest + n) := by
      rw [Cursor.rest_advance, skip, Cursor.rest_advance, List.drop_drop]
    rw [List.map_cons, List.map_cons, places, htext, ih, Cursor.offset_advance hn, hrest,
      offset_skip]
    simp only [Token.span, tokenAt, offset_skip]

/-- Every token stands in the source, with its own text. -/
theorem inside (h : Cuts place us) (hp : place.In source) :
    ∀ t ∈ us, t.start.In source ∧ t.span.slice source = t.text := by
  induction h with
  | nil place => exact List.forall_mem_nil _
  | @token place terminal n us hn _ ih =>
    refine List.forall_mem_cons.2 ⟨⟨hp.skip, ?_⟩, ih (hp.skip.advance n)⟩
    have hlocate := congrArg Location.text (hp.skip.locate ((skip place).offset + n))
    rw [Cursor.locate, Nat.add_sub_cancel_left] at hlocate
    exact (Option.some.inj hlocate).symm

end Cuts

end Lexer

/-! ## The reading -/

namespace Parser.Reading

open Reader Lexer

variable {rule : Rule} {r goal : Reading} {us : List Token}

/-- **The run.**  Up to a later point of a reading tokens are cut from the source, and the state there
holds what they are read as, and their texts. -/
theorem Reaches.reads (h : r.Reaches goal) (hs : r.state.Sound rule) (hr : Read us r.state.pieces) :
    ∃ vs, Cuts r.place vs ∧ Read (us ++ vs) goal.state.pieces ∧
      goal.state.texts = r.state.texts ++ vs.map (·.text) := by
  induction h generalizing us with
  | refl r => exact ⟨[], .nil r.place, by rwa [List.append_nil], (List.append_nil _).symm⟩
  | @token r goal terminal n next hl hf _ ih =>
    obtain ⟨hnext, htexts⟩ := State.feed_sound hs (tokenAt_fits hl) hf
    have hread := State.feed_reduces hs hf _ (hr.append (.token (r.token terminal n) .nil))
    obtain ⟨vs, hcuts, hgoal, hgoalTexts⟩ := ih hnext hread
    refine ⟨r.token terminal n :: vs, .token terminal (lexeme_le hl) hcuts, ?_, ?_⟩
    · rwa [List.append_assoc] at hgoal
    · rw [hgoalTexts]
      show next.texts ++ _ = _
      rw [htexts, List.append_assoc]
      rfl

end Parser.Reading

namespace Parser

open Reader Lexer

/-- The tree of a source is written with the tokens of the source. -/
theorem writtenWith_of_parse {rule : Rule} {source : String} {root : Node}
    (h : parse rule source = .ok root) :
    ∃ us, Cuts (Cursor.start source.toList) us ∧ us.map (·.text) = root.texts ∧
      root.WrittenWith us := by
  obtain ⟨goal, hreaches, hstops⟩ := (Reading.start rule source.toList).exists_stops
  have hresult : (Reading.start rule source.toList).result = .ok root := h
  rw [hresult] at hstops
  cases hstops with
  | done _ hfinish =>
    have hs : (Reading.start rule source.toList).state.Sound rule := initial_sound rule
    have hr : Read [] (Reading.start rule source.toList).state.pieces := by
      cases rule <;> exact .nil
    obtain ⟨us, hcuts, hread, htexts⟩ := hreaches.reads hs hr
    have hnone : (Reading.start rule source.toList).state.texts = [] := by
      cases rule <;> rfl
    have hroot := (State.finish_sound (hreaches.sound hs) hfinish).2
    refine ⟨us, hcuts, ?_, State.finish_writtenWith hread hfinish⟩
    rw [hroot, htexts, hnone, List.nil_append]

end Parser

/-! ## The nodes of a tree -/

/-- The nodes among items, each with the number of its first token, if the items start with the token
number `i`. -/
def Item.nodes (i : Nat) : List Item → List (Nat × Node)
  | [] => []
  | .token _ :: rest => nodes (i + 1) rest
  | .node first :: rest => (i, first) :: nodes (i + first.texts.length) rest

namespace Node

/-- The children of a node that starts with the token number `i`, each with the number of its first
token. -/
def children (i : Nat) (node : Node) : List (Nat × Node) :=
  Item.nodes i node.form.items

/-- The node stands in the tree, where it starts with the token number `i` of the tree. -/
inductive Stands (root : Node) : Nat → Node → Prop where
  | root : Stands root 0 root
  | child {i j : Nat} {node child : Node} : Stands root i node → (j, child) ∈ node.children i →
      Stands root j child

/-- The stretch from the first token of a node to its last one, if it starts with the token number
`i`. -/
def span? (spans : List Span) (i : Nat) (node : Node) : Option Span :=
  Span.hull spans i node.texts.length

/-- A node that starts with the token number `i` is located from its first token to its last one, and
its children lie inside it, one behind the other. -/
structure Located (source : List Char) (spans : List Span) (i : Nat) (node : Node) : Prop where
  loc : ∃ s, node.span? spans i = some s ∧ node.loc = some (s.location source)
  inside : ∀ c ∈ node.children i, ∃ s inner, node.span? spans i = some s ∧
    c.2.span? spans c.1 = some inner ∧ s.start ≤ inner.start ∧ inner.stop ≤ s.stop
  ordered : (node.children i).Pairwise fun c d => ∃ s t, c.2.span? spans c.1 = some s ∧
    d.2.span? spans d.1 = some t ∧ s.stop ≤ t.start

end Node

/-- The two parts of what stands from `i` on in a list stand one behind the other there. -/
theorem prefix_drop_append {α : Type} {xs ys all : List α} {i : Nat} (h : xs ++ ys <+: all.drop i) :
    xs <+: all.drop i ∧ ys <+: all.drop (i + xs.length) := by
  refine ⟨(List.prefix_append xs ys).trans h, ?_⟩
  obtain ⟨rest, hrest⟩ := h
  rw [← List.drop_drop, ← hrest, List.append_assoc, List.drop_left]
  exact List.prefix_append ys rest

namespace Item

variable {i : Nat} {items : List Item}

/-- Nodes among items lie among the tokens of the items. -/
theorem nodes_inside : ∀ c ∈ nodes i items,
    i ≤ c.1 ∧ c.1 + c.2.texts.length ≤ i + (items.flatMap texts).length := by
  fun_induction nodes i items with
  | case1 i => exact List.forall_mem_nil _
  | case2 i text rest ih =>
    intro c hc
    have := ih c hc
    rw [List.flatMap_cons, List.length_append, texts_token, List.length_singleton]
    omega
  | case3 i first rest ih =>
    rw [List.forall_mem_cons, List.flatMap_cons, List.length_append, texts_node]
    refine ⟨by dsimp only; omega, fun c hc => ?_⟩
    have := ih c hc
    omega

/-- Nodes among items stand one behind the other. -/
theorem nodes_ordered (i : Nat) (items : List Item) :
    (nodes i items).Pairwise fun c d => c.1 + c.2.texts.length ≤ d.1 := by
  fun_induction nodes i items with
  | case1 i => exact .nil
  | case2 i text rest ih => exact ih
  | case3 i first rest ih => exact .cons (fun c hc => (nodes_inside c hc).1) ih

/-- A node among items has its texts among theirs. -/
theorem nodes_texts {all : List String} (h : items.flatMap texts <+: all.drop i) :
    ∀ c ∈ nodes i items, c.2.texts <+: all.drop c.1 := by
  fun_induction nodes i items with
  | case1 i => exact List.forall_mem_nil _
  | case2 i text rest ih => exact ih (prefix_drop_append h).2
  | case3 i first rest ih =>
    exact List.forall_mem_cons.2 ⟨(prefix_drop_append h).1, ih (prefix_drop_append h).2⟩

end Item

/-- A node among items has tokens of its own among theirs. -/
theorem Covers.child {us ts : List Token} {items : List Item} {i : Nat} (h : Covers us items)
    (hus : us <+: ts.drop i) : ∀ c ∈ Item.nodes i items, ∃ vs, vs ≠ [] ∧ vs <+: ts.drop c.1 ∧
      c.2.WrittenWith vs := by
  induction h generalizing i with
  | nil => exact List.forall_mem_nil _
  | @token t text us _ _ ih =>
    have htoken : [t] ++ us <+: ts.drop i := hus
    exact ih (prefix_drop_append htoken).2
  | @node vs us node items hne hloc hsource hitems _ _ ih =>
    have hnode : node.WrittenWith vs := ⟨hloc, hitems, fun hnil => (hne hnil).elim, hsource⟩
    obtain ⟨hvs, hrest⟩ := prefix_drop_append hus
    rw [hnode.length_eq] at hrest
    exact List.forall_mem_cons.2 ⟨⟨vs, hne, hvs, hnode⟩, ih hrest⟩

namespace Node

variable {root node : Node} {i : Nat}

/-- The tree is written with the texts of a node where the node stands. -/
theorem Stands.texts (h : root.Stands i node) : node.texts <+: root.texts.drop i := by
  induction h with
  | root => exact List.prefix_rfl
  | child _ hc ih =>
    rw [texts_eq_items] at ih
    exact Item.nodes_texts ih _ hc

/-- Every node of a tree is written with tokens of the tree. -/
theorem Stands.writtenWith {ts : List Token} (h : root.Stands i node) (hroot : root.WrittenWith ts) :
    ∃ us, us <+: ts.drop i ∧ node.WrittenWith us := by
  induction h with
  | root => exact ⟨ts, List.prefix_rfl, hroot⟩
  | child _ hc ih =>
    obtain ⟨us, hus, hnode⟩ := ih
    obtain ⟨vs, -, hvs, hchild⟩ := hnode.items.child hus _ hc
    exact ⟨vs, hvs, hchild⟩

end Node

variable {source : List Char} {ts us : List Token} {i : Nat} {node : Node}

/-- The location of tokens is that of the stretch from the first one to the last one. -/
theorem Token.extent_eq (hin : ∀ t ∈ ts, t.start.In source) (hus : us <+: ts.drop i) (hne : us ≠ []) :
    ∃ s, Span.hull (ts.map Token.span) i us.length = some s ∧
      Token.extent us = some (s.location source) := by
  obtain ⟨rest, hrest⟩ := hus
  have hpos : 0 < us.length := List.length_pos_iff.2 hne
  have hfound : ∀ k (hk : k < us.length), (ts.map Token.span)[i + k]? = some us[k].span := by
    intro k hk
    rw [List.getElem?_map, ← List.getElem?_drop, ← hrest, List.getElem?_append_left hk,
      List.getElem?_eq_getElem hk]
    rfl
  have hmem : us[0] ∈ ts :=
    List.mem_of_mem_drop (hrest ▸ List.mem_append_left rest (List.getElem_mem hpos))
  refine ⟨⟨us[0].start.offset, us[us.length - 1].stop⟩, ?_, ?_⟩
  · have hfirst := hfound 0 hpos
    have hlast := hfound (us.length - 1) (by omega)
    rw [Nat.add_zero] at hfirst
    rw [← Nat.add_sub_assoc hpos] at hlast
    rw [Span.hull, hfirst, hlast]
    rfl
  · rw [Token.extent, List.head?_eq_getElem?, List.getLast?_eq_getElem?,
      List.getElem?_eq_getElem hpos, List.getElem?_eq_getElem (by omega)]
    exact congrArg some ((hin _ hmem).locate _)

namespace Node

/-- A node with tokens of its own is located from the first one to the last one. -/
theorem WrittenWith.span (h : node.WrittenWith us) (hin : ∀ t ∈ ts, t.start.In source)
    (hus : us <+: ts.drop i) (hne : us ≠ []) :
    ∃ s, node.span? (ts.map Token.span) i = some s ∧ node.loc = some (s.location source) := by
  obtain ⟨s, hhull, hextent⟩ := Token.extent_eq hin hus hne
  rw [h.length_eq] at hhull
  exact ⟨s, hhull, h.loc.trans hextent⟩

/-- Such a node has its children inside it, one behind the other. -/
theorem WrittenWith.located (h : node.WrittenWith us) (hin : ∀ t ∈ ts, t.start.In source)
    (hordered : Span.Ordered (ts.map Token.span)) (hus : us <+: ts.drop i) (hne : us ≠ []) :
    node.Located source (ts.map Token.span) i := by
  have hchild : ∀ c ∈ node.children i, 0 < c.2.texts.length ∧
      ∃ s, c.2.span? (ts.map Token.span) c.1 = some s := by
    intro c hc
    obtain ⟨vs, hne, hvs, hnode⟩ := h.items.child hus c hc
    obtain ⟨s, hs, -⟩ := hnode.span hin hvs hne
    exact ⟨hnode.length_eq ▸ List.length_pos_iff.2 hne, s, hs⟩
  obtain ⟨s, hs, hloc⟩ := h.span hin hus hne
  refine ⟨⟨s, hs, hloc⟩, ?_, ?_⟩
  · intro c hc
    obtain ⟨-, inner, hinner⟩ := hchild c hc
    obtain ⟨hstart, hstop⟩ := Item.nodes_inside c hc
    rw [← texts_eq_items] at hstop
    exact ⟨s, inner, hs, hinner, hordered.hull_inside hstart hstop hs hinner⟩
  · refine (Item.nodes_ordered i node.form.items).imp_of_mem ?_
    intro c d hc hd hcd
    obtain ⟨hpos, a, ha⟩ := hchild c hc
    obtain ⟨-, b, hb⟩ := hchild d hd
    exact ⟨a, b, ha, hb, hordered.hull_before hpos hcd ha hb⟩

end Node

namespace Parser

/-- **The nodes of the tree of a source.**  The tree is written with the tokens of the source, and
every node in it, except a script without statements, is located from the start of its first token to
the end of its last one, with its children inside it, one behind the other. -/
theorem nodes_located {rule : Rule} {source : String} {root : Node}
    (h : parse rule source = .ok root) :
    let spans := Lexer.places 0 source.toList root.texts
    Lexer.cut source.toList = some root.texts ∧
      spans.map (Span.slice source.toList) = root.texts ∧
      ∀ i node, root.Stands i node → node.texts <+: root.texts.drop i ∧
        (node.form = .script [] → node.loc = none) ∧
        (node.form ≠ .script [] → node.Located source.toList spans i) := by
  obtain ⟨ts, hcuts, htexts, hroot⟩ := writtenWith_of_parse h
  have hspans : ts.map Token.span = Lexer.places 0 source.toList root.texts := by
    rw [← htexts]
    exact hcuts.span_eq
  have hinside := hcuts.inside (Cursor.in_start source.toList)
  dsimp only
  rw [← hspans]
  refine ⟨texts_of_parse h, ?_, ?_⟩
  · rw [List.map_map, ← htexts]
    exact List.map_congr_left fun t ht => (hinside t ht).2
  · intro i node hnode
    obtain ⟨us, hus, hwritten⟩ := hnode.writtenWith hroot
    refine ⟨hnode.texts, ?_, ?_⟩
    · intro hform
      obtain ⟨hloc, hitems, -⟩ := hwritten
      rw [hform] at hitems
      cases hitems
      exact hloc
    · intro hform
      have hordered : Span.Ordered (ts.map Token.span) :=
        hspans ▸ Lexer.places_ordered 0 source.toList root.texts
      exact hwritten.located (fun t ht => (hinside t ht).1) hordered hus (mt hwritten.empty hform)

/-- A call over two lines, with a comment in front of it and one behind it. -/
theorem nodes_located_call :
    ∃ root, parse .expression "/* of\n two */ f(a,\n 2) // end" = .ok root ∧
      root.loc = some ⟨2, 9, some "f(a,\n 2)"⟩ := by
  have hok : (parse .expression "/* of\n two */ f(a,\n 2) // end").isOk := by decide +kernel
  have hcut : Lexer.cut "/* of\n two */ f(a,\n 2) // end".toList =
      some ["f", "(", "a", ",", "2", ")"] := by decide +kernel
  have hhull : Span.hull (Lexer.places 0 "/* of\n two */ f(a,\n 2) // end".toList
      ["f", "(", "a", ",", "2", ")"]) 0 6 = some ⟨14, 22⟩ := by decide +kernel
  cases h : parse .expression "/* of\n two */ f(a,\n 2) // end" with
  | error m => rw [h] at hok; exact nomatch hok
  | ok root =>
    obtain ⟨hroot, -, hnodes⟩ := nodes_located h
    have htexts := Option.some.inj (hroot.symm.trans hcut)
    have hform : root.form ≠ .script [] := by
      intro hform
      rw [Node.texts_eq_items, hform] at htexts
      exact nomatch htexts
    obtain ⟨s, hs, hloc⟩ := ((hnodes 0 root .root).2.2 hform).loc
    rw [Node.span?, htexts] at hs
    obtain rfl := Option.some.inj (hs.symm.trans hhull)
    refine ⟨root, rfl, hloc.trans (congrArg some ?_)⟩
    decide +kernel

end Parser

end Scriptlet
