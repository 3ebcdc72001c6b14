import QmlCodeModel.Proofs.Grammar.Source
import QmlCodeModel.Proofs.Outline.Objects
import QmlCodeModel.Proofs.Sketch.Members

/-! Documents with a sketch: reading one undoes the writing. The recursion of the goals is closed here, by
induction on the height of what is in braces. -/
namespace QmlCodeModel.Grammar

open Sketch

variable {source : String} {w height : Nat} {s : State}

/-- Three levels are enough for a number, and one more for each object or group around it. -/
theorem grasps_readWithin (source : String) (w : Nat) {levels : Nat} (h : height + 3 ≤ levels) :
    Grasps source w height (readWithin levels) := by
  induction height generalizing levels with
  | zero =>
    obtain ⟨levels,rfl⟩ := Nat.exists_eq_add_of_le' (Nat.le_trans (Nat.le_add_left 3 0) h)
    refine ⟨fun _ hheight => absurd hheight (Nat.not_lt_zero _),fun h hstop hdepth => ?_⟩
    exact ends_script levels _ h hstop (by omega)
  | succ height ih =>
    obtain ⟨levels,rfl⟩ := Nat.exists_eq_add_of_le' (Nat.le_trans (Nat.le_add_left 3 _) h)
    have hgo : Grasps source w height (readWithin (levels + 2)) := ih (by omega)
    refine ⟨fun hbefore hheight hdepth => ?_,fun h hstop hdepth => ?_⟩
    · exact readInitializer_draws hgo hbefore (Nat.le_of_lt_succ hheight) (by omega)
    · exact ends_script levels _ h hstop (by omega)

/-- No header comes before the name of a type. -/
lemma collect_header {type : TypeName} {gap : Gap} {later : List Piece}
    (h : s.Before source (type.pieces gap ++ later)) : collect header s = .ok ([],s) := by
  have hpeek := State.Before.peek_cons h
  have hwords : ∀ text ∈ ["import", "pragma"], startsUppercase text = false := by decide +kernel
  have hname (text : String) (htext : text ∈ ["import", "pragma"]) : s.peek.isName text = false := by
    have hcapital := type.capital _ List.mem_cons_self
    have hne : type.first.text ≠ text := by
      rintro rfl
      simp [hwords _ htext] at hcapital
    rw [hpeek]
    simpa [Token.isName,Glyph.kind,Glyph.text] using hne
  have hheader : header s = .ok (⟨[],false⟩,s) := by
    change (if s.peek.isName "import" && _ then _ else if s.peek.isName "pragma" && _ then _ else _ :
      Parser (Round Node)) s = _
    rw [hname "import" (by simp),hname "pragma" (by simp)]
    rfl
  change collectWithin header (s.rest.length + 1) s = .ok ([],s)
  unfold collectWithin
  simp only [bind,StateT.bind,hheader,Except.bind]
  rfl

/-- A document is read to its end, with its object below the root. -/
lemma readQml_draws {go : Reader} (whole : Span) (object : Sketch)
    (hgo : Grasps source w height go) (h : s.Before source (object.pieces w .none 0))
    (hheight : object.height ≤ height) (hdepth : s.depth + height + 3 ≤ maxNesting) :
    Ends [] (readQml go whole) s (Past source s (object.pieces w .none 0) [] fun root =>
      ∃ id n, root = ⟨id,whole,.document [] [n]⟩ ∧ Draws source w 0 object n) := by
  obtain ⟨type,members⟩ := object
  have hstarts : startsObject false s.rest = true := by
    rw [h.rest,Sketch.pieces]
    exact startsObject_pieces _ fun hnamed => absurd hnamed Bool.false_ne_true
  unfold readQml rootObject
  rw [ends_known (collect_header h),bind_assoc,ends_upcoming,hstarts]
  rw [← List.append_nil (Sketch.pieces w _ _ _)] at h
  have hobject := objectDefinition_draws hgo (.mk type members) h hheight hdepth
  simp only [if_true,bind_assoc]
  refine hobject.past (.refl s) fun n t hn ht hpassed => ?_
  have hend : refuseRest .tokenAfterRootObject t = .ok ((),t) := by
    have hpeek : t.peek = t.eof := by rw [State.peek,ht.rest]; rfl
    change (if t.peek.kind == .eof then _ else _ : Parser Unit) t = _
    rw [hpeek,ht.eof]
    rfl
  rw [ends_known hend]
  exact ends_make hpassed ht fun id => ⟨id,n,rfl,hn⟩

/-- The state before the first token of a legible text. -/
lemma before_opening {pieces : List Piece} (h : Legible pieces) :
    (opening (written pieces)).Before (String.ofList (written pieces)) pieces ∧
      (opening (written pieces)).depth = 0 ∧
      (opening (written pieces)).diagnostics = #[] := by
  obtain ⟨eof,heof,htokens,hfaults⟩ := tokenize_written h
  unfold opening initialState
  dsimp only
  rw [htokens,hfaults,List.dropLast_concat,List.getLastD_concat]
  exact ⟨⟨rfl,heof,[],by simp,rfl⟩,rfl,rfl⟩

/-- A document with one object has the outline of that object. -/
lemma outline?_document {root n : Node} {f : ObjectForm} (hkind : root.kind = .document [] [n])
    (h : n.objectForm? = some f) : root.outline? = some f.outline := by
  have hfirst := Node.find?_walk hkind nofun (by simp [h])
  unfold Node.outline?
  rw [hfirst,List.head?_cons,Option.bind_some,h]
  rfl

end QmlCodeModel.Grammar

namespace QmlCodeModel.Sketch

open Grammar

/-- Reading a document undoes the writing of it. Any object with members of these forms, nested at most a
hundred deep and written with one member on a line, is read without a complaint, and the outline of the
document shows it: the same types, the same properties and objects in the same order, and each value where
its text stands. -/
theorem outline_render (w : Nat) (object : Sketch) (h : object.height ≤ 100) :
    ∃ p shown, parse? .qml (object.render w) = some p ∧ p.success ∧ p.diagnostics = [] ∧
      p.root.outline? = some shown ∧
      Shows (object.render w) w 0 object.typeName.joined object.members shown := by
  obtain ⟨hbefore,hdepth,hdiagnostics⟩ := before_opening (object.legible (w := w))
  have hgo : Grasps (object.render w) w object.height
      (readWithin (maxNesting + (opening (written (object.pieces w .none 0))).rest.length + 1)) :=
    grasps_readWithin _ w (by unfold maxNesting; omega)
  have hread := readQml_draws ⟨0,byteWidth (written (object.pieces w .none 0))⟩ object hgo hbefore
    (Nat.le_refl _) (by rw [hdepth]; unfold maxNesting; omega)
  cases hresult : reading .qml (written (object.pieces w .none 0)) with
  | error e => exact absurd (hread.of_error hresult).2 (by simp)
  | ok result =>
    obtain ⟨root,final⟩ := result
    obtain ⟨⟨id,n,hroot,f,hform,hshown⟩,-,hpassed⟩ := hread.of_ok hresult
    have htext : (object.render w).toList = written (object.pieces w .none 0) := String.toList_ofList
    have hnone : final.diagnostics = #[] := hpassed.diagnostics.trans hdiagnostics
    have hparse : parse? .qml (object.render w) = some {
        root, form := .qml, nodes := final.nodes
        comments := (tokenize (written (object.pieces w .none 0))).comments.toList
        diagnostics := [], directives := final.directives.toList } := by
      simp [parse?,htext,hresult,Except.toOption,hnone,Diagnostic.sort]
    refine ⟨_,f.outline,hparse,rfl,rfl,?_,hshown⟩
    exact outline?_document (congrArg Node.kind hroot) hform

/-- An object with a member of each form. -/
def panel : Sketch :=
  let text : Sketch := .mk { first := { text := "Text" } } []
  .mk { first := { text := "Item" } } [
    .script { first := { text := "x" } } { negative := true, digits := { text := "12" } },
    .group { first := { text := "font" } } [
      .script { first := { text := "size" } } { digits := { text := "3" } }],
    .bound { first := { text := "a" }, later := [{ text := "b" }] } text,
    .put (.mk { first := { text := "Anim" } } []) { first := { text := "x" } },
    .array { first := { text := "states" } } (.mk { first := { text := "S" } } []) [text],
    .child text]

/-- A document with all forms of members is read as it is written. -/
theorem outline_render_panel : panel.render 2 =
      "Item \x7b\n  x: -12\n  font \x7b\n    size: 3\n  \x7d\n  a.b: Text \x7b\n  \x7d\n" ++
      "  Anim on x \x7b\n  \x7d\n  states: [ S \x7b\n  \x7d, Text \x7b\n  \x7d ]\n" ++
      "  Text \x7b\n  \x7d\n\x7d" ∧
    ∃ p shown, parse? .qml (panel.render 2) = some p ∧ p.success ∧ p.diagnostics = [] ∧
      p.root.outline? = some shown ∧
      Shows (panel.render 2) 2 0 panel.typeName.joined panel.members shown :=
  ⟨by decide +kernel,outline_render 2 panel (by decide)⟩

end QmlCodeModel.Sketch
