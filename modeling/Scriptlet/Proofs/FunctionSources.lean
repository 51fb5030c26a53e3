import Scriptlet.Proofs.Outcome
import Scriptlet.Proofs.SourceSlices
import Scriptlet.Proofs.StandingForms

/-!
# The source of a function

A function declaration keeps the text of its body, from one brace to the other.  By itself this text
is a script of one block, and the block is the body in everything but its places
(`Parser.function_source_reproduces_body`).

The tokens of the body are the tokens of the kept text, at the same distances from each other
(`Token.Echoes`), and the grammar takes them for the same tree.  The functions in the body keep texts of
their own; they are the same in both trees, since each is the text between two of those tokens
(`Covers.echo`).
-/

namespace Scriptlet

set_option autoImplicit false

/-! ## Tokens at the same places -/

/-- The text of a stretch of a slice is that of the stretch in the source. -/
theorem Span.slice_shift {source slice back : List Char} {d : Nat} (h : source.drop d = slice ++ back)
    {s : Span} (hs : s.stop ≤ slice.length) : (s.shift d).slice source = s.slice slice := by
  rw [Span.slice, Span.slice, shift, ← List.drop_drop, List.drop_take, Nat.add_sub_cancel_left, h,
    List.take_append_of_le_length hs]

/-- A token of a source and a token of a slice of it, at the offset `d`, stand at the same place. -/
structure Token.Echoes (source slice : List Char) (d : Nat) (t u : Token) : Prop where
  start : t.start.In source
  sliceStart : u.start.In slice
  span : t.span = u.span.shift d
  within : u.stop ≤ slice.length

/-- The text of a location, if it is known. -/
def Location.text? (loc : Option Location) : Option String :=
  loc.bind (·.text)

section Echoes

variable {source slice back : List Char} {d : Nat} {ts us : List Token}

/-- Tokens from one place to another have the text in between. -/
theorem Token.text_extent {t t' : Token} (hin : t.start.In source) (hfirst : ts.head? = some t)
    (hlast : ts.getLast? = some t') :
    Location.text? (Token.extent ts) = some (Span.slice source ⟨t.start.offset, t'.stop⟩) := by
  rw [Token.extent, hfirst, hlast]
  show (t.start.locate t'.stop).text = _
  rw [hin.locate]
  rfl

/-- Tokens at the same places have the same text in between. -/
theorem Token.Echoes.text_extent (h : source.drop d = slice ++ back)
    (hts : List.Forall₂ (Token.Echoes source slice d) ts us) :
    Location.text? (Token.extent ts) = Location.text? (Token.extent us) := by
  cases hts with
  | nil => rfl
  | @cons t u ts us hfirst hrest =>
    have hlast : ∃ t' u', (t :: ts).getLast? = some t' ∧ (u :: us).getLast? = some u' ∧
        Token.Echoes source slice d t' u' := by
      clear h
      induction hrest generalizing t u with
      | nil => exact ⟨t, u, rfl, rfl, hfirst⟩
      | cons hnext _ ih =>
        obtain ⟨t', u', ht, hu, hecho⟩ := ih hnext
        exact ⟨t', u', by rw [List.getLast?_cons_cons, ht], by rw [List.getLast?_cons_cons, hu], hecho⟩
    obtain ⟨t', u', ht, hu, hecho⟩ := hlast
    rw [Token.text_extent hfirst.start rfl ht, Token.text_extent hfirst.sliceStart rfl hu,
      ← Span.slice_shift h hecho.within]
    have hstart : t.start.offset = d + u.start.offset := congrArg Span.start hfirst.span
    have hstop : t'.stop = d + u'.stop := congrArg Span.stop hecho.span
    rw [hstart, hstop]
    rfl

end Echoes

/-! ## Trees on the same tokens -/

/-- An item in which every node is stripped. -/
def Item.stripped (source : Block → String → String) : Item → Item
  | token text => token text
  | node n => node (n.stripped source)

/-- A stripped form is written with stripped nodes. -/
theorem Form.items_stripped (source : Block → String → String) (form : Form) :
    (form.stripped source).items = form.items.map (Item.stripped source) := by
  cases form with
  | ret expr => cases expr <;> rfl
  | call callee args =>
    simp [stripped, items, Item.stripped, Node.strippedAll_eq_map, map_intersperse, Function.comp_def]
  | chain kind first rest =>
    simp [stripped, items, Item.stripped, Node.strippedOperands_eq_map, List.flatMap_map,
      List.map_flatMap]
  | block statements =>
    simp [stripped, items, Item.stripped, Node.strippedAll_eq_map, Function.comp_def]
  | script statements =>
    simp [stripped, items, Item.stripped, Node.strippedAll_eq_map, Function.comp_def]
  | function name params body text =>
    obtain ⟨loc, statements⟩ := body
    simp [stripped, items, Item.stripped, map_intersperse, Function.comp_def, Block.stripped, Block.node,
      Node.stripped]
  | _ => rfl

/-- A node without its places, and the text at its place. -/
def Node.echo (node : Node) : Node × Option String :=
  (node.unplaced, Location.text? node.loc)

/-- A form with other nodes in the place of its own; a function has its source from its body. -/
def Form.refilled : Form → List (Node × Option String) → Form
  | .member _ _, [(object, _), (tail, _)] => .member object tail
  | .group _, [(expr, _)] => .group expr
  | .call _ _, (callee, _) :: args => .call callee (args.map (·.1))
  | .ternary _ _ _, [(condition, _), (thenBranch, _), (elseBranch, _)] =>
    .ternary condition thenBranch elseBranch
  | .assign _ op _, [(target, _), (value, _)] => .assign target op value
  | .chain kind _ rest, (first, _) :: nodes =>
    .chain kind first ((rest.map (·.1)).zip (nodes.map (·.1)))
  | .unary op _, [(operand, _)] => .unary op operand
  | .expression _, [(expr, _)] => .expression expr
  | .block _, statements => .block (statements.map (·.1))
  | .function name params _ _, [(⟨loc, .block statements⟩, some source)] =>
    .function name params ⟨loc, statements⟩ source
  | .declaration name _ isMutable, [(value, _)] => .declaration name value isMutable
  | .ret (some _), [(expr, _)] => .ret (some expr)
  | .script _, statements => .script (statements.map (·.1))
  | form, _ => form

/-- A form is known from its bare form and from its nodes with their texts. -/
theorem Form.refilled_echoes {form : Form} (h : form.KeepsSource) :
    (form.stripped fun _ _ => "").refilled (form.nodes.map Node.echo) =
      form.stripped fun _ source => source := by
  have hnodes : ∀ nodes : List Node, (nodes.map Node.echo).map (·.1) =
      Node.strippedAll (fun _ source => source) nodes := by
    intro nodes
    rw [Node.strippedAll_eq_map, List.map_map]
    rfl
  cases form with
  | ret expr => cases expr <;> rfl
  | call callee args =>
    have hargs := hnodes args
    simp only [stripped, nodes, List.map_cons, Node.echo, refilled] at hargs ⊢
    rw [hargs]
    rfl
  | chain kind first rest =>
    have hrest : ((Node.strippedOperands (fun _ _ => "") rest).map (·.1)).zip
        (((rest.map (·.2)).map Node.echo).map (·.1)) =
          Node.strippedOperands (fun _ source => source) rest := by
      clear h
      induction rest with
      | nil => rfl
      | cons p rest ih => exact congrArg (List.cons (p.1, p.2.unplaced)) ih
    simp only [stripped, nodes, List.map_cons, Node.echo, refilled] at hrest ⊢
    rw [hrest]
    rfl
  | block statements => rw [stripped, stripped, refilled, nodes, hnodes]
  | script statements => rw [stripped, stripped, refilled, nodes, hnodes]
  | function name params body source =>
    obtain ⟨loc, statements⟩ := body
    have htext : Location.text? loc = some source := h
    simp only [stripped, nodes, List.map_cons, List.map_nil, Node.echo, Block.node, htext]
    rfl
  | _ => rfl

theorem Node.form_stripped (source : Block → String → String) (node : Node) :
    (node.stripped source).form = node.form.stripped source := by
  obtain ⟨loc, form⟩ := node
  rw [stripped]

theorem Node.echo_eq {node node' : Node} (hbare : node.bare = node'.bare)
    (hs : node.form.KeepsSource) (hs' : node'.form.KeepsSource)
    (hnodes : node.form.nodes.map echo = node'.form.nodes.map echo)
    (hloc : Location.text? node.loc = Location.text? node'.loc) : node.echo = node'.echo := by
  have hform : node.form.stripped (fun _ _ => "") = node'.form.stripped fun _ _ => "" := by
    rw [← form_stripped, ← form_stripped]
    exact congrArg Node.form hbare
  have hunplaced : node.form.stripped (fun _ source => source) =
      node'.form.stripped fun _ source => source := by
    rw [← Form.refilled_echoes hs, hform, hnodes, Form.refilled_echoes hs']
  obtain ⟨loc, form⟩ := node
  obtain ⟨loc', form'⟩ := node'
  rw [echo, echo, unplaced, unplaced, stripped, stripped, hunplaced, hloc]

/-- A node without its places, as an item. -/
def Item.bare (item : Item) : Item :=
  item.stripped fun _ _ => ""

theorem Node.items_bare {node node' : Node} (h : node.bare = node'.bare) :
    node.form.items.map Item.bare = node'.form.items.map Item.bare := by
  have hform := congrArg (fun n : Node => n.form.items) h
  simp only [bare, form_stripped, Form.items_stripped] at hform
  exact hform

section Echoes

variable {source slice back : List Char} {d : Nat} {ts us : List Token} {items items' : List Item}

theorem Covers.length_congr (h : Covers ts items) (h' : Covers us items')
    (hbare : items.map Item.bare = items'.map Item.bare) : ts.length = us.length := by
  induction h generalizing us items' with
  | nil =>
    rw [List.map_eq_nil_iff.1 hbare.symm] at h'
    cases h'
    rfl
  | token t text _ ih =>
    cases h' with
    | nil => exact nomatch hbare
    | token u text' h' => exact congrArg (· + 1) (ih h' (List.cons.inj hbare).2)
    | node => exact nomatch (List.cons.inj hbare).1
  | @node vs ts node items _ _ _ _ _ ihnode ih =>
    cases h' with
    | nil => exact nomatch hbare
    | token => exact nomatch (List.cons.inj hbare).1
    | @node vs' us node' items' _ _ _ hitems h' =>
      obtain ⟨hnode, hrest⟩ := List.cons.inj hbare
      rw [List.length_append, List.length_append, ih h' hrest,
        ihnode hitems (Node.items_bare (Item.node.inj hnode))]

/-- **Trees on the same tokens.**  Two runs of nodes that are the same but for their places and the sources
of their functions are the same but for their places if they are written with tokens that stand at the
same places. -/
theorem Covers.echo (hslice : source.drop d = slice ++ back) (h : Covers ts items)
    (h' : Covers us items') (hts : List.Forall₂ (Token.Echoes source slice d) ts us)
    (hbare : items.map Item.bare = items'.map Item.bare) :
    (items.filterMap Item.node?).map Node.echo = (items'.filterMap Item.node?).map Node.echo := by
  induction h generalizing us items' with
  | nil =>
    rw [List.map_eq_nil_iff.1 hbare.symm]
  | token t text _ ih =>
    cases h' with
    | nil => exact nomatch hbare
    | token u text' h' =>
      cases hts with
      | cons _ hts =>
        have hrest := ih h' hts (List.cons.inj hbare).2
        exact hrest
    | node => exact nomatch (List.cons.inj hbare).1
  | @node vs ts node items _ hloc hsource hitems _ ihnode ih =>
    cases h' with
    | nil => exact nomatch hbare
    | token => exact nomatch (List.cons.inj hbare).1
    | @node vs' us node' items' _ hloc' hsource' hitems' h' =>
      obtain ⟨hnode, hrest⟩ := List.cons.inj hbare
      have hsame := Node.items_bare (Item.node.inj hnode)
      have hlength := hitems.length_congr hitems' hsame
      have hvs : List.Forall₂ (Token.Echoes source slice d) vs vs' := by
        have := List.forall₂_take vs.length hts
        rwa [List.take_left, hlength, List.take_left] at this
      have hus : List.Forall₂ (Token.Echoes source slice d) ts us := by
        have := List.forall₂_drop vs.length hts
        rwa [List.drop_left, hlength, List.drop_left] at this
      have hnodes := ihnode hitems' hvs hsame
      rw [Form.filterMap_items, Form.filterMap_items] at hnodes
      have hecho : node.echo = node'.echo :=
        Node.echo_eq (Item.node.inj hnode) hsource hsource' hnodes
          (by rw [hloc, hloc', Token.Echoes.text_extent hslice hvs])
      exact congrArg₂ List.cons hecho (ih h' hus hrest)

end Echoes

/-! ## The slice of a body -/

theorem Lexer.Cuts.within {place : Cursor} {us : List Token} {source : List Char} (h : Cuts place us)
    (hp : place.In source) : ∀ t ∈ us, t.stop ≤ source.length := by
  induction h with
  | nil place => exact List.forall_mem_nil _
  | @token place terminal n us hn _ ih =>
    refine List.forall_mem_cons.2 ⟨?_, ih (hp.skip.advance n)⟩
    obtain ⟨before, hsource, hb⟩ := hp.skip
    show (skip place).offset + n ≤ source.length
    rw [hsource, List.length_append, hb.offset]
    exact Nat.add_le_add_left hn _

theorem Token.forall₂_echoes {source slice : List Char} {d : Nat} {ts us : List Token}
    (hts : ∀ t ∈ ts, t.start.In source) (hus : ∀ u ∈ us, u.start.In slice ∧ u.stop ≤ slice.length)
    (hspan : ts.map Token.span = (us.map Token.span).map (Span.shift d)) :
    List.Forall₂ (Token.Echoes source slice d) ts us := by
  induction ts generalizing us with
  | nil =>
    cases us with
    | nil => exact .nil
    | cons u us => exact nomatch hspan
  | cons t ts ih =>
    cases us with
    | nil => exact nomatch hspan
    | cons u us =>
      rw [List.forall_mem_cons] at hts hus
      obtain ⟨ht, hrest⟩ := List.cons.inj hspan
      exact .cons ⟨hts.1, hus.1.1, ht, hus.1.2⟩ (ih hts.2 hus.2 hrest)

namespace Parser

open Lexer

variable {rule : Rule} {source : String} {root node : Node} {i : Nat}

/-- A source of a function body is that body, as a script. -/
theorem parse_body {body : Block} (hbody : body.IsBody) {slice : List Char}
    (hcut : cut slice = some body.texts) : ∃ found statement,
      parse .script (String.ofList slice) = .ok found ∧ found.form = .script [statement] ∧
        statement.bare = body.node.bare := by
  have hfits : Node.Fits ⟨none, .script [body.node]⟩ .script :=
    ⟨[body.node], rfl, Block.isBody_node hbody, trivial⟩
  have htexts : Node.texts ⟨none, .script [body.node]⟩ = body.texts := by
    rw [Node.texts, Form.texts, Node.allTexts, Node.allTexts, List.append_nil, Block.texts_node]
  have htokens : cut (String.ofList slice).toList =
      some (Node.texts ⟨none, .script [body.node]⟩) := by
    rw [String.toList_ofList, htexts, hcut]
  obtain ⟨found, hfound, hrendered⟩ := parse_of_cut hfits htokens
  obtain ⟨statements, hform, -⟩ := fits_of_parse hfound
  have hstatements : Node.strippedAll (fun _ _ => "") statements = [body.node.bare] := by
    have hbare := congrArg Node.bare hrendered
    rw [Node.bare_rendered, Node.bare_rendered] at hbare
    have hforms := congrArg Node.form hbare
    rw [Node.bare, Node.form_stripped, hform] at hforms
    exact Form.script.inj hforms
  rw [Node.strippedAll_eq_map] at hstatements
  obtain ⟨statement, hone, hstatement⟩ := List.map_eq_singleton_iff.1 hstatements
  exact ⟨found, statement, hfound, hform.trans (congrArg Form.script hone), hstatement⟩

/-- Tokens that start and end with a source have its whole text. -/
theorem whole_extent {slice : List Char} {us : List Token} (h : Cuts (.start slice) us) (hne : us ≠ [])
    (hgap : gapLength slice = 0)
    (hlast : (places 0 slice (us.map (·.text))).getLast?.map (·.stop) = some slice.length) :
    ∃ u u', us.head? = some u ∧ us.getLast? = some u' ∧ u.span.start = 0 ∧
      u'.span.stop = slice.length ∧ Location.text? (Token.extent us) = some (String.ofList slice) := by
  have hspans : us.map Token.span = places 0 slice (us.map (·.text)) := h.span_eq
  obtain ⟨u, rest, rfl⟩ := List.exists_cons_of_ne_nil hne
  have hstart : u.span.start = 0 := by
    rw [List.map_cons, List.map_cons, places] at hspans
    rw [(List.cons.inj hspans).1]
    exact (Nat.zero_add _).trans hgap
  obtain ⟨u', hu'⟩ : ∃ u', (u :: rest).getLast? = some u' := ⟨_, List.getLast?_eq_some_getLast hne⟩
  have hstop : u'.span.stop = slice.length := by
    rw [← hspans, List.getLast?_map, hu'] at hlast
    exact Option.some.inj hlast
  have hin := (h.inside (Cursor.in_start slice) u List.mem_cons_self).1
  refine ⟨u, u', rfl, hu', hstart, hstop, ?_⟩
  have hwhole : (⟨u.start.offset, u'.stop⟩ : Span) = ⟨0, slice.length⟩ := congrArg₂ Span.mk hstart hstop
  rw [Token.text_extent hin rfl hu', hwhole, Span.slice, List.take_length, List.drop_zero]

/-- Such a source starts and ends with a brace if its first and its last token are braces. -/
theorem exists_inner {slice : List Char} {us : List Token} {texts : List String}
    (h : Cuts (.start slice) us) (htexts : us.map (·.text) = "\x7b" :: texts ++ ["\x7d"])
    (hgap : gapLength slice = 0)
    (hlast : (places 0 slice (us.map (·.text))).getLast?.map (·.stop) = some slice.length) :
    ∃ inner, slice = '{' :: inner ++ ['}'] := by
  have hus : us ≠ [] := by
    rintro rfl
    exact List.cons_ne_nil _ _ htexts.symm
  obtain ⟨u, u', hu, hu', hstart, hstop, -⟩ := whole_extent h hus hgap hlast
  have htext : u.text = "\x7b" := by
    have := congrArg List.head? htexts
    rw [List.head?_map, hu] at this
    exact Option.some.inj this
  have htext' : u'.text = "\x7d" := by
    have := congrArg List.getLast? htexts
    rw [List.getLast?_map, hu', List.getLast?_concat] at this
    exact Option.some.inj this
  have hinside := h.inside (Cursor.in_start slice)
  -- Both braces stand at the ends of the source.
  have hfront : slice.take u.span.stop = ['{'] := by
    have hslice := congrArg String.toList (hinside u (List.mem_of_head? hu)).2
    rwa [Span.slice, String.toList_ofList, hstart, List.drop_zero, htext] at hslice
  have hback : slice.drop u'.span.start = ['}'] := by
    have hslice := congrArg String.toList (hinside u' (List.mem_of_getLast? hu')).2
    rwa [Span.slice, String.toList_ofList, hstop, List.take_length, htext'] at hslice
  have hopens : slice = '{' :: slice.drop u.span.stop := by
    rw [← List.singleton_append, ← hfront, List.take_append_drop]
  have hends : slice.getLast? = some '}' := by
    rw [← List.take_append_drop u'.span.start slice, hback, List.getLast?_concat]
  rw [hopens] at hends ⊢
  rcases List.eq_nil_or_concat (slice.drop u.span.stop) with hnil | ⟨inner, x, hrest⟩
  · rw [hnil] at hends
    exact absurd hends (by decide)
  · rw [hrest, List.concat_eq_append, ← List.cons_append, List.getLast?_concat] at hends
    exact ⟨inner, by rw [hrest, List.concat_eq_append, Option.some.inj hends, List.cons_append]⟩

/-- The slice of a source, at the offset `d`, from the first to the last of the tokens that a node is
written with. -/
structure NodeSlice (source : List Char) (node : Node) (us : List Token) (d : Nat) (slice : List Char) :
    Prop where
  written : node.WrittenWith us
  nonempty : us ≠ []
  inside : ∀ u ∈ us, u.start.In source
  within : ∃ back, source.drop d = slice ++ back
  cut : Lexer.cut slice = some node.texts
  gap : gapLength slice = 0
  spans : us.map Token.span = (places 0 slice node.texts).map (Span.shift d)
  stop : (places 0 slice node.texts).getLast?.map (·.stop) = some slice.length

/-- Every node of a program with tokens of its own has its slice of the source. -/
theorem exists_nodeSlice (h : parse rule source = .ok root) (hnode : root.Stands i node)
    (hne : node.texts ≠ []) : ∃ us d slice, NodeSlice source.toList node us d slice := by
  obtain ⟨ts, hcuts, htexts, hroot⟩ := writtenWith_of_parse h
  obtain ⟨us, hus, hwritten⟩ := hnode.writtenWith hroot
  obtain ⟨more, hmore⟩ := hnode.texts
  have hsplit : root.texts = root.texts.take i ++ node.texts ++ more := by
    rw [List.append_assoc, hmore, List.take_append_drop]
  have hskipped : (root.texts.take i).length = i := by
    have hlt := List.length_pos_of_ne_nil (List.append_ne_nil_of_left_ne_nil hne more)
    rw [hmore, List.length_drop] at hlt
    exact List.length_take_of_le (by omega)
  have hcut := texts_of_parse h
  rw [hsplit] at hcut
  obtain ⟨d, slice, back, hslice, hcutSlice, hgap, hplaces, hlast⟩ := exists_slice hne hcut
  rw [← hsplit, hskipped] at hplaces
  refine ⟨us, d, slice, hwritten, ?_, fun u hu => ?_, ⟨back, hslice⟩, hcutSlice, hgap, ?_, hlast⟩
  · rintro rfl
    exact hne (List.length_eq_zero_iff.1 hwritten.length_eq.symm)
  · exact (hcuts.inside (Cursor.in_start _) u (List.mem_of_mem_drop (hus.subset hu))).1
  · have hts : ts.map Token.span = places 0 source.toList root.texts := htexts ▸ hcuts.span_eq
    rw [← hplaces, ← hts, ← hwritten.length_eq, ← List.map_drop, ← List.map_take,
      ← List.prefix_iff_eq_take.1 hus]

/-- The tokens that are cut from the slice of a node stand at the places of the node's tokens. -/
theorem NodeSlice.echoes {chars slice : List Char} {us vs : List Token} {d : Nat}
    (h : NodeSlice chars node us d slice) (hcuts : Cuts (.start slice) vs)
    (hvs : vs.map (·.text) = node.texts) : List.Forall₂ (Token.Echoes chars slice d) us vs := by
  have hspans : vs.map Token.span = places 0 slice (vs.map (·.text)) := hcuts.span_eq
  refine Token.forall₂_echoes h.inside (fun v hv => ⟨(hcuts.inside (Cursor.in_start _) v hv).1,
    hcuts.within (Cursor.in_start _) v hv⟩) ?_
  rw [hspans, hvs, h.spans]

/-- **The source of a function.**  Wherever a function declaration stands in a program, the text that it
keeps goes from an opening brace to a closing one, and by itself it is a script of one block, which is
the body of the function in everything but the places of its nodes. -/
theorem function_source_reproduces_body (h : parse rule source = .ok root) (hnode : root.Stands i node)
    {name kept : String} {params : List String} {body : Block}
    (hform : node.form = .function name params body kept) :
    (∃ inner, kept = "\x7b" ++ inner ++ "\x7d") ∧ ∃ found statement,
      parse .script kept = .ok found ∧ found.form = .script [statement] ∧
        statement.unplaced = body.node.unplaced := by
  have hkept : Location.text? body.loc = some kept := by
    obtain ⟨_, _, _, hroot⟩ := writtenWith_of_parse h
    obtain ⟨_, _, hwritten⟩ := hnode.writtenWith hroot
    have hsource := hwritten.source
    rwa [hform] at hsource
  have hbody : body.IsBody := (hnode.isGrammatical (fits_of_parse h).isGrammatical).body hform
  obtain ⟨middle, hmiddle⟩ : ∃ middle, body.node.texts = "\x7b" :: middle ++ ["\x7d"] := by
    obtain ⟨loc, statements⟩ := body
    exact ⟨Node.allTexts statements, by rw [Block.texts_node, Block.texts]⟩
  obtain ⟨j, hstands⟩ : ∃ j, root.Stands j body.node :=
    hnode.exists_child (hform ▸ List.mem_singleton.2 rfl)
  obtain ⟨us, d, slice, hslice⟩ := exists_nodeSlice h hstands (hmiddle ▸ List.cons_ne_nil _ _)
  obtain ⟨back, hback⟩ := hslice.within
  -- The slice by itself: its tree, its tokens, and its text.
  have hcut := hslice.cut
  obtain ⟨found, statement, hfound, hscript, hbare⟩ := parse_body hbody (body.texts_node ▸ hcut)
  obtain ⟨vs, hcuts, htexts, hwritten⟩ := writtenWith_of_parse hfound
  rw [String.toList_ofList] at hcuts
  have hvs : vs.map (·.text) = body.node.texts := by
    have hcutFound := texts_of_parse hfound
    rw [String.toList_ofList, hcut] at hcutFound
    exact htexts.trans (Option.some.inj hcutFound).symm
  have hechoes := hslice.echoes hcuts hvs
  have hstop := hslice.stop
  rw [← hvs] at hstop
  obtain ⟨inner, hinner⟩ := exists_inner hcuts (hvs.trans hmiddle) hslice.gap hstop
  have hkeptSlice : kept = String.ofList slice := by
    have hne : vs ≠ [] := fun hnil => hslice.nonempty (List.forall₂_nil_right_iff.1 (hnil ▸ hechoes))
    obtain ⟨_, _, _, _, _, _, hwhole⟩ := whole_extent hcuts hne hslice.gap hstop
    have hloc : body.loc = Token.extent us := hslice.written.loc
    rw [hloc, Token.Echoes.text_extent hback hechoes, hwhole] at hkept
    exact (Option.some.inj hkept).symm
  rw [hkeptSlice]
  refine ⟨⟨String.ofList inner, ?_⟩, found, statement, hfound, hscript, ?_⟩
  · rw [hinner, ← String.toList_inj]
    simp
  · have hbodyCovers : Covers (us ++ []) [.node body.node] :=
      .node hslice.nonempty hslice.written.loc hslice.written.source hslice.written.items .nil
    rw [List.append_nil] at hbodyCovers
    have hstatementCovers : Covers vs [.node statement] := by
      have hitems := hwritten.items
      rwa [hscript] at hitems
    have hecho := hbodyCovers.echo hback hstatementCovers hechoes
      (congrArg (fun n => [Item.node n]) hbare.symm)
    exact (congrArg Prod.fst (List.cons.inj hecho).1).symm

/-- A function inside another one, with braces in a string and in comments around its own. -/
theorem function_source_reproduces_body_nested : ∃ root i node name params body kept,
    parse .script "function f(a) \x7b // \x7b\n  function g() \x7b return \"\x7d\"; /* \x7d */ \x7d /* \x7d */ \x7d" =
        .ok root ∧ root.Stands i node ∧ node.form = .function name params body kept ∧
      kept = "\x7b return \"\x7d\"; /* \x7d */ \x7d" ∧ ∃ found statement,
        parse .script kept = .ok found ∧ found.form = .script [statement] ∧
          statement.unplaced = body.node.unplaced := by
  have hfirst : ((parse .script "function f(a) \x7b // \x7b\n  function g() \x7b return \"\x7d\"; /* \x7d */ \x7d /* \x7d */ \x7d").toOption.bind
      fun root => root.form.nodes.head?.bind fun outer => outer.form.nodes.head?.bind fun body =>
        body.form.nodes.head?.bind fun inner => inner.form.source?) =
      some "\x7b return \"\x7d\"; /* \x7d */ \x7d" := by
    decide +kernel
  simp only [Option.bind_eq_some_iff] at hfirst
  obtain ⟨root, hparse, outer, houter, body, hbody, inner, hinner, hkept⟩ := hfirst
  replace hparse := toOption_eq_some.1 hparse
  obtain ⟨name, params, innerBody, hform⟩ := Form.source?_eq_some.1 hkept
  obtain ⟨_, hstands⟩ := Node.Stands.root.exists_child (List.mem_of_head? houter)
  obtain ⟨_, hstands⟩ := hstands.exists_child (List.mem_of_head? hbody)
  obtain ⟨i, hstands⟩ := hstands.exists_child (List.mem_of_head? hinner)
  exact ⟨root, i, inner, name, params, innerBody, _, hparse, hstands, hform, rfl,
    (function_source_reproduces_body hparse hstands hform).2⟩

end Parser

end Scriptlet
