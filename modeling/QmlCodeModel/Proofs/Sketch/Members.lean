import QmlCodeModel.Proofs.Sketch.Outline
import QmlCodeModel.Proofs.Sketch.Parts

/-! The grammar draws the members of an object as they are sketched. The objects inside them are drawn one
level deeper, by what reads their braces. -/
namespace QmlCodeModel.Grammar

open Sketch

/-- What reading the braces of an object comes to. -/
def DrawsBlock (source : String) (w level : Nat) (members : List Member) (s : State)
    (later : List Piece) : Node → State → Prop :=
  Past source s (braces w level members) later fun body =>
    body.span = placeOf s.previousStop (braces w level members) ∧ Fills source w level members body

/-- What reading a line with a member comes to. -/
def DrawsLine (source : String) (w level : Nat) (m : Member) (s : State) (later : List Piece) :
    Node → State → Prop :=
  Past source s (m.lead w level ++ m.value w level) later (DrawsMember source w level m)

/-- A way to read goals that draws what is in braces, up to a height, and numbers. -/
structure Grasps (source : String) (w height : Nat) (go : Reader) : Prop where
  body {level : Nat} {members : List Member} {s : State} {later : List Piece}
    (h : s.Before source (braces w level members ++ later)) (hheight : highest members < height)
    (hdepth : s.depth + height + 2 ≤ maxNesting) :
    Ends [] (go .initializer) s (DrawsBlock source w level members s later)
  number {gap : Gap} {value : Numeral} {s : State} {later : List Piece}
    (h : s.Before source (value.pieces gap ++ later)) (hstop : StopsScript later)
    (hdepth : s.depth + 3 ≤ maxNesting) :
    Ends [] (script go) s (Covers source s (value.pieces gap) later)

variable {source : String} {w height level : Nat} {go : Reader} {s t : State} {gap : Gap}
  {later : List Piece} {members : List Member}

lemma stopsName_braces (later : List Piece) : StopsName (braces w level members ++ later) :=
  ⟨_,_,rfl,by simp⟩

lemma initializer_draws (hgo : Grasps source w height go)
    (h : s.Before source (braces w level members ++ later)) (hheight : highest members < height)
    (hdepth : s.depth + height + 3 ≤ maxNesting) :
    Ends [] (initializer go) s (DrawsBlock source w level members s later) :=
  ends_nested (by omega) (hgo.body (h.deeper _) hheight (by simp only; omega))

/-- An object is drawn, with its braces one level deeper. -/
lemma objectDefinition_draws (hgo : Grasps source w height go) (object : Sketch)
    (h : s.Before source (object.pieces w gap level ++ later)) (hheight : object.height ≤ height)
    (hdepth : s.depth + height + 3 ≤ maxNesting) :
    Ends [] (objectDefinition go) s
      (Past source s (object.pieces w gap level) later (Draws source w level object)) := by
  obtain ⟨type,members⟩ := object
  rw [pieces_mk] at h ⊢
  rw [List.append_assoc] at h
  have hname := ends_dottedName type.toDottedName h (stopsName_braces later)
  unfold objectDefinition
  rw [ends_start,State.Before.front_cons h]
  refine hname.past (.refl s) fun name t hname ht hpassed => ?_
  have hdepth' : t.depth + height + 3 ≤ maxNesting := by rwa [hpassed.depth]
  refine (initializer_draws hgo ht hheight hdepth').past hpassed fun body u hbody hu hall => ?_
  exact ends_finish hall hu fun id => draws_of_kind rfl hname.1 hbody.2

/-! Arrays. -/

lemma exists_pieces (w : Nat) (gap : Gap) (level : Nat) (object : Sketch) :
    ∃ word pieces, object.pieces w gap level = ⟨gap,.word word⟩ :: pieces := by
  obtain ⟨type,members⟩ := object
  exact ⟨type.first.toWord,_,rfl⟩

/-- An object in brackets. -/
lemma arrayMember_draws (hgo : Grasps source w height go) (object : Sketch)
    (h : s.Before source (object.pieces w gap level ++ later)) (hheight : object.height ≤ height)
    (hdepth : s.depth + height + 3 ≤ maxNesting) :
    Ends [] (progressing (arrayMember go)) s
      (Past source s (object.pieces w gap level) later fun nodes =>
        ∃ n, nodes = [n] ∧ Draws source w level object n) := by
  obtain ⟨word,pieces,hpieces⟩ := exists_pieces w gap level object
  have hobject := objectDefinition_draws hgo object h hheight hdepth
  have hstarts : startsObject false s.rest = true := by
    obtain ⟨type,members⟩ := object
    rw [h.rest,pieces_mk,List.append_assoc]
    exact startsObject_pieces _ nofun
  rw [hpieces] at hobject ⊢
  apply ends_progressing
  unfold arrayMember
  rw [ends_upcoming,hstarts]
  refine hobject.past (.refl s) fun n t hn ht hpassed => ?_
  exact ⟨⟨n,rfl,hn⟩,ht,hpassed⟩

/-- One of the objects of an array, with the comma after it if there is one. -/
lemma arrayMemberRound_draws (hgo : Grasps source w height go) (object : Sketch) {more : Bool}
    {comma rest : List Piece} (h : s.Before source (object.pieces w gap level ++ later))
    (hcomma : ∀ t : State, t.Before source later →
      ∃ u, eatPunct "," t = .ok (more,u) ∧ u.Before source rest ∧ t.Passed comma u)
    (hheight : object.height ≤ height) (hdepth : s.depth + height + 3 ≤ maxNesting) :
    Ends [] (roundUntil (·.isPunct "]") (commaRound (arrayMember go))) s
      (Past source s (object.pieces w gap level ++ comma) rest fun r =>
        ∃ n, r = ⟨[n],more⟩ ∧ Draws source w level object n) := by
  have hstop : (s.peek.isPunct "]" || s.peek.kind == .eof) = false := by
    obtain ⟨word,pieces,hpieces⟩ := exists_pieces w gap level object
    rw [hpieces] at h
    rw [State.Before.peek_cons h]
    rfl
  unfold roundUntil commaRound
  rw [ends_peek,hstop]
  have hobject := arrayMember_draws hgo object h hheight hdepth
  refine hobject.past (.refl s) fun nodes t hnodes ht hpassed => ?_
  obtain ⟨n,rfl,hn⟩ := hnodes
  obtain ⟨u,heat,hu,hlast⟩ := hcomma t ht
  rw [ends_known heat]
  exact ⟨⟨n,rfl,hn⟩,hu,hpassed.trans hlast⟩

/-- The objects of an array, with commas between them. -/
lemma arrayMembers_draw (hgo : Grasps source w height go) (object : Sketch) (objects : List Sketch)
    (rounds : Nat) (h : s.Before source
      (object.pieces w gap level ++ (others w level objects ++ ⟨.blank,.mark .listClosing⟩ :: later)))
    (hheight : tallest (object :: objects) ≤ height) (hdepth : s.depth + height + 3 ≤ maxNesting)
    (hrounds : objects.length ≤ rounds) :
    Ends [] (collectWithin (roundUntil (·.isPunct "]") (commaRound (arrayMember go))) (rounds + 1)) s
      (Past source s (object.pieces w gap level ++ others w level objects)
        (⟨.blank,.mark .listClosing⟩ :: later) fun nodes =>
          List.Forall₂ (Draws source w level) (object :: objects) nodes) := by
  unfold collectWithin
  induction objects generalizing s gap object rounds with
  | nil =>
    have hclosing (t : State) (ht : t.Before source (⟨.blank,.mark .listClosing⟩ :: later)) :
        eatPunct "," t = .ok (false,t) := by
      apply eatPunct_absent
      rw [ht.peek_cons,Piece.token_mark_isPunct]
      decide
    have hround := arrayMemberRound_draws hgo object h (fun t ht => ⟨t,hclosing t ht,ht,.refl t⟩)
      (Nat.max_le.mp hheight).1 hdepth
    refine hround.past (.refl s) fun r t hr ht hpassed => ?_
    obtain ⟨n,rfl,hn⟩ := hr
    exact ⟨.cons hn .nil,ht,hpassed⟩
  | cons next objects ih =>
    obtain ⟨rounds,rfl⟩ := Nat.exists_eq_add_of_le' (Nat.le_trans (Nat.succ_pos _) hrounds)
    obtain ⟨hobject,hobjects⟩ := Nat.max_le.mp hheight
    have hcomma (t : State) (ht : t.Before source (others w level (next :: objects) ++
        ⟨.blank,.mark .listClosing⟩ :: later)) : ∃ u, eatPunct "," t = .ok (true,u) ∧
        u.Before source (next.pieces w .blank level ++ (others w level objects ++
          ⟨.blank,.mark .listClosing⟩ :: later)) ∧ t.Passed [⟨.none,.mark .comma⟩] u := by
      rw [others,List.cons_append,List.append_assoc] at ht
      exact ⟨t.advance,eatPunct_mark ht (by decide),ht.advance⟩
    have hround := arrayMemberRound_draws hgo object h hcomma hobject hdepth
    refine hround.past (.refl s) fun r t hr ht hpassed => ?_
    obtain ⟨n,rfl,hn⟩ := hr
    have hdepth' : t.depth + height + 3 ≤ maxNesting := by rwa [hpassed.depth]
    have hlater := ih next rounds ht hobjects hdepth' (Nat.le_of_succ_le_succ hrounds)
    refine Ends.past hlater hpassed fun nodes u hnodes hu hall => ?_
    refine ⟨.cons hn hnodes,hu,?_⟩
    simpa [others] using hall

lemma length_others (w level : Nat) (objects : List Sketch) :
    objects.length ≤ (others w level objects).length := by
  induction objects with
  | nil => exact Nat.le_refl _
  | cons object objects ih =>
    simp only [others,List.length_cons,List.length_append]
    omega

/-- Objects in brackets. -/
lemma objectArray_draws (hgo : Grasps source w height go) (object : Sketch) (objects : List Sketch)
    (h : s.Before source (row w level object objects ++ later))
    (hheight : tallest (object :: objects) ≤ height) (hdepth : s.depth + height + 3 ≤ maxNesting) :
    Ends [] (objectArray go) s (Past source s (row w level object objects) later fun array =>
      array.2 = placeOf s.previousStop (row w level object objects) ∧
      List.Forall₂ (Draws source w level) (object :: objects) array.1) := by
  have hinner : s.Before source (⟨.blank,.mark .listOpening⟩ :: (object.pieces w .blank level ++
      (others w level objects ++ ⟨.blank,.mark .listClosing⟩ :: later))) := by
    simpa [row,bracketed] using h
  obtain ⟨ht,hpassed⟩ := hinner.advance
  have hrounds : objects.length ≤ s.advance.rest.length := by
    have := length_others w level objects
    simp only [ht.rest,length_tokensAt,List.length_append]
    omega
  have hdepth' : s.advance.depth + height + 3 ≤ maxNesting := by rwa [hpassed.depth]
  have hmembers : Ends [] (commaSeparated "]" (arrayMember go)) s.advance _ :=
    arrayMembers_draw hgo object objects _ ht hheight hdepth' hrounds
  unfold objectArray
  rw [ends_start,ends_skip]
  refine hmembers.past hpassed fun nodes u hnodes hu hall => ?_
  obtain ⟨hv,hlast⟩ := hu.advance
  have hall : s.Passed (row w level object objects) u.advance := by
    simpa [row,bracketed] using hall.trans hlast
  rw [ends_known (discard_expectPunct hu (by decide)),ends_get,hinner.front_cons]
  exact ⟨⟨hall.spanFrom,hnodes⟩,hv,hall⟩

/-! Members. Each starts with a dotted name, and what comes after it tells the form. -/

/-- After a name that is bound, and after the name of a type, no declaration is looked for. -/
lemma namedMember_eq {first next afterNext : Token} (h : binds next ∨ startsUppercase first.text) :
    namedMember go first next afterNext = bindingMember go := by
  obtain h | h := h
  · have hkind : next.kind = .punct := by
      simp only [binds,Token.isPunct,Bool.or_eq_true,Bool.and_eq_true,beq_iff_eq] at h
      obtain (h | h) | h := h <;> exact h.1
    simp [namedMember,h,Token.isName,hkind]
  · have hwords : ∀ text ∈ ["property", "default", "readonly", "required", "signal", "enum", "function",
        "async", "var", "let", "const"], startsUppercase text = false := by decide +kernel
    have hfirst (text : String) (hsmall : startsUppercase text = false) : first.text ≠ text := by
      rintro rfl
      exact absurd h (by simp [hsmall])
    simp only [List.forall_mem_cons] at hwords
    simp [namedMember,hfirst,hwords]

/-- A dotted name before braces: an object, or a group of properties. -/
lemma bindingMember_draws_braces (hgo : Grasps source w height go) {d : DottedName} {post : Node → Prop}
    (h : s.Before source (d.pieces gap ++ (braces w level members ++ later)))
    (hheight : highest members < height) (hdepth : s.depth + height + 3 ≤ maxNesting)
    (hpost : ∀ name t body id, name.names = d.names → Fills source w level members body →
      t.Before source (braces w level members ++ later) → s.Passed (d.pieces gap) t →
      body.span = placeOf t.previousStop (braces w level members) →
      post ⟨id,placeOf s.previousStop (d.pieces gap ++ braces w level members),
        .objectDefinition name body⟩) :
    Ends [] (bindingMember go) s (Past source s (d.pieces gap ++ braces w level members) later post) := by
  have hname := ends_dottedName d h (stopsName_braces later)
  unfold bindingMember
  rw [ends_start,State.Before.front_cons h]
  refine hname.past (.refl s) fun name t hname ht hpassed => ?_
  have hopening : t.peek.isName "on" = false ∧ t.peek.isPunct "\x7b" = true := by
    rw [State.Before.peek_cons ht]
    exact ⟨rfl,by rw [Piece.token_mark_isPunct]; decide⟩
  rw [ends_atName,ends_ahead,hopening.1]
  simp only [Bool.false_and,Bool.false_eq_true,if_false]
  rw [ends_atPunct,hopening.2]
  have hdepth' : t.depth + height + 3 ≤ maxNesting := by rwa [hpassed.depth]
  refine (initializer_draws hgo ht hheight hdepth').past hpassed fun body u hbody hu hall => ?_
  exact ends_finish hall hu fun id => hpost name t body id hname.1 hbody.2 ht hpassed hbody.1

/-- An object put on a property. -/
lemma bindingMember_draws_put (hgo : Grasps source w height go) (type : TypeName) (target : DottedName)
    (h : s.Before source ((Member.put (.mk type members) target).value w level ++ later))
    (hheight : highest members < height) (hdepth : s.depth + height + 3 ≤ maxNesting) :
    Ends [] (bindingMember go) s
      (DrawsLine source w level (.put (.mk type members) target) s later) := by
  have htext := h.text.slice_place
  have h : s.Before source (type.pieces (.line (w * level)) ++ (⟨.blank,.word onWord⟩ ::
      (target.pieces .blank ++ (braces w level members ++ later)))) := by
    simpa [Member.value,putHead,braces] using h
  have hname := ends_dottedName type.toDottedName h ⟨_,_,rfl,by simp⟩
  unfold bindingMember
  rw [ends_start,State.Before.front_cons h]
  refine hname.past (.refl s) fun name t hname ht hpassed => ?_
  have hon : t.peek.isName "on" = true ∧ (t.ahead 1).kind = .name := by
    rw [ht.peek_cons,State.Before.ahead_one ht]
    exact ⟨rfl,rfl⟩
  obtain ⟨hu,hword⟩ := ht.advance
  have htarget := ends_dottedName target hu (stopsName_braces later)
  rw [ends_atName,ends_ahead,hon.1,hon.2,if_pos (by decide),ends_skip]
  refine htarget.past (hpassed.trans hword) fun place u htarget hu hbefore => ?_
  have hdepth' : u.depth + height + 3 ≤ maxNesting := by rwa [hbefore.depth]
  refine (initializer_draws hgo hu hheight hdepth').past hbefore fun body v hbody hv hall => ?_
  -- The pieces in the order in which they were passed.
  have hpieces : (Member.put (.mk type members) target).value w level =
      [] ++ type.pieces (.line (w * level)) ++ [⟨.blank,.word onWord⟩] ++ target.pieces .blank ++
        braces w level members := by
    simp [Member.value,putHead,braces]
  unfold DrawsLine
  rw [Member.lead,List.nil_append]
  rw [hpieces] at htext ⊢
  apply ends_finish hall hv
  intro id
  apply drawsMember_put rfl htarget.1 hname.1 hbody.2
  rw [Member.valueText,hpieces]
  exact htext

/-- A dotted name and a colon before a value. -/
lemma ends_bindingMember_colon {d : DottedName} {post : Node → State → Prop}
    (h : s.Before source (d.pieces gap ++ ⟨.none,.mark .colon⟩ :: later))
    (hvalue : ∀ name t, name.names = d.names → t.Before source later →
      s.Passed (d.pieces gap ++ [⟨.none,.mark .colon⟩]) t →
      Ends [] (boundValue go (s.previousStop + byteWidth gap.chars) name) t post) :
    Ends [] (bindingMember go) s post := by
  have hname := ends_dottedName d h ⟨_,_,rfl,by simp⟩
  unfold bindingMember
  rw [ends_start,State.Before.front_cons h]
  refine hname.past (.refl s) fun name t hname ht hpassed => ?_
  have hcolon : t.peek.isName "on" = false ∧ t.peek.isPunct "\x7b" = false := by
    rw [ht.peek_cons]
    exact ⟨rfl,by rw [Piece.token_mark_isPunct]; decide⟩
  rw [ends_atName,ends_ahead,hcolon.1]
  simp only [Bool.false_and,Bool.false_eq_true,if_false]
  rw [ends_atPunct,hcolon.2]
  simp only [Bool.false_eq_true,if_false]
  obtain ⟨hu,hlast⟩ := ht.advance
  rw [ends_known (expectPunct_mark ht (by decide))]
  exact hvalue name t.advance hname.1 hu (hpassed.trans hlast)

/-- An object for a property. -/
lemma bindingMember_draws_bound (hgo : Grasps source w height go) (d : DottedName) (type : TypeName)
    (h : s.Before source ((Member.bound d (.mk type members)).lead w level ++
      ((Member.bound d (.mk type members)).value w level ++ later)))
    (hheight : highest members < height) (hdepth : s.depth + height + 3 ≤ maxNesting) :
    Ends [] (bindingMember go) s (DrawsLine source w level (.bound d (.mk type members)) s later) := by
  rw [Member.lead,List.append_assoc,List.singleton_append] at h
  refine ends_bindingMember_colon h fun name t hname ht hpassed => ?_
  have htext := hpassed.slice_value ht
  have hvalue : (Member.bound d (.mk type members)).value w level =
      type.pieces .blank ++ braces w level members := pieces_mk w .blank level type members
  rw [hvalue,List.append_assoc] at ht
  have hstarts : startsObject true t.rest = true := by
    rw [ht.rest]
    exact startsObject_pieces _ fun _ => type.capital
  have htype := ends_dottedName type.toDottedName ht (stopsName_braces later)
  unfold boundValue
  rw [ends_upcoming,hstarts]
  refine htype.past hpassed fun typeName u htype hu hbefore => ?_
  have hdepth' : u.depth + height + 3 ≤ maxNesting := by rwa [hbefore.depth]
  refine (initializer_draws hgo hu hheight hdepth').past hbefore fun body v hbody hv hall => ?_
  rw [List.append_assoc,← hvalue] at hall
  apply ends_finish hall hv
  intro id
  apply drawsMember_bound rfl hname htype.1 hbody.2
  rw [htype.2]
  exact htext

/-- Objects in brackets for a property. -/
lemma bindingMember_draws_array (hgo : Grasps source w height go) (d : DottedName) (first : Sketch)
    (objects : List Sketch) (h : s.Before source ((Member.array d first objects).lead w level ++
      ((Member.array d first objects).value w level ++ later)))
    (hheight : tallest (first :: objects) ≤ height) (hdepth : s.depth + height + 3 ≤ maxNesting) :
    Ends [] (bindingMember go) s (DrawsLine source w level (.array d first objects) s later) := by
  rw [Member.lead,List.append_assoc,List.singleton_append] at h
  refine ends_bindingMember_colon h fun name t hname ht hpassed => ?_
  have htext := ht.text.slice_place
  have hvalue : (Member.array d first objects).value w level = row w level first objects := by
    rw [Member.value,row]
  rw [hvalue] at ht
  have hstarts : startsObject true t.rest = false ∧ startsObjectArray t.rest = true := by
    obtain ⟨type,members⟩ := first
    have hobject (offset : Nat) (later : List Piece) :
        startsObject true (tokensAt offset (type.pieces .blank ++ (braces w level members ++ later))) =
          true := startsObject_pieces offset fun _ => type.capital
    have hopening : Mark.listOpening.text == "[" := by decide
    rw [ht.rest,row,bracketed,pieces_mk]
    constructor
    · simp [tokensAt,startsObject,Token.isBindable,Glyph.kind]
    · simp [tokensAt,startsObjectArray,hopening,hobject]
  unfold boundValue
  rw [ends_upcoming,hstarts.1,hstarts.2]
  simp only [Bool.false_eq_true,if_false,if_true]
  have hdepth' : t.depth + height + 3 ≤ maxNesting := by rwa [hpassed.depth]
  have harray := objectArray_draws hgo first objects ht hheight hdepth'
  refine harray.past hpassed fun array u harray hu hall => ?_
  rw [← hvalue] at harray hall
  exact ends_finish hall hu fun id => drawsMember_array rfl hname harray.2 (harray.1 ▸ htext)

/-- A number for a property. -/
lemma bindingMember_draws_script (hgo : Grasps source w height go) (d : ScriptName) (value : Numeral)
    (h : s.Before source ((Member.script d value).lead w level ++
      ((Member.script d value).value w level ++ later)))
    (hstop : StopsScript later) (hdepth : s.depth + 3 ≤ maxNesting) :
    Ends [] (bindingMember go) s (DrawsLine source w level (.script d value) s later) := by
  rw [Member.lead,List.append_assoc,List.singleton_append] at h
  refine ends_bindingMember_colon h fun name t hname ht hpassed => ?_
  have htext := ht.text.slice_place
  rw [Member.value] at ht
  have hstarts : startsObject true t.rest = false ∧ startsObjectArray t.rest = false := by
    rw [ht.rest]
    exact startsObject_numeral value true _
  unfold boundValue
  rw [ends_upcoming,hstarts.1,hstarts.2]
  simp only [Bool.false_eq_true,if_false]
  have hdepth' : t.depth + 3 ≤ maxNesting := by rwa [hpassed.depth]
  refine (hgo.number ht hstop hdepth').past hpassed fun n u hn hu hall => ?_
  exact ends_make hall hu fun id => drawsMember_script rfl hname (hn ▸ htext)

/-- A member is drawn, whatever its form. -/
lemma bindingMember_draws (hgo : Grasps source w height go) (m : Member)
    (h : s.Before source (m.lead w level ++ (m.value w level ++ later))) (hheight : m.height ≤ height)
    (hstop : StopsScript later) (hdepth : s.depth + height + 3 ≤ maxNesting) :
    Ends [] (bindingMember go) s (DrawsLine source w level m s later) := by
  cases m with
  | script name value => exact bindingMember_draws_script hgo name value h hstop (by omega)
  | group name members =>
    refine bindingMember_draws_braces hgo h hheight hdepth ?_
    intro q t body id hname hbody ht hpassed hspan
    apply drawsMember_group rfl hname hbody
    rw [hspan]
    exact hpassed.slice_value ht
  | bound name object =>
    obtain ⟨type,members⟩ := object
    exact bindingMember_draws_bound hgo name type h hheight hdepth
  | put object target =>
    obtain ⟨type,members⟩ := object
    exact bindingMember_draws_put hgo type target h hheight hdepth
  | array name first objects => exact bindingMember_draws_array hgo name first objects h hheight hdepth
  | child object =>
    obtain ⟨type,members⟩ := object
    have hline : (Member.child (.mk type members)).value w level =
        type.pieces (.line (w * level)) ++ braces w level members := pieces_mk w _ level type members
    rw [Member.lead,List.nil_append,hline,List.append_assoc] at h
    unfold DrawsLine
    rw [Member.lead,List.nil_append,hline]
    exact bindingMember_draws_braces hgo h hheight hdepth fun q t body id hname hbody _ _ _ =>
      drawsMember_child rfl hname hbody

lemma binds_dottedName {d : DottedName} {m : Mark} {between : Gap} (hm : m = .colon ∨ m = .opening)
    (h : s.Before source (d.pieces gap ++ ⟨between,.mark m⟩ :: later)) : binds (s.ahead 1) := by
  obtain ⟨first,names⟩ := d
  have hmarks : Mark.dot.text = "." ∧ Mark.colon.text = ":" ∧ Mark.opening.text = "\x7b" := by decide
  cases names with
  | nil =>
    have hahead := State.Before.ahead_one (p := ⟨gap,.word first.toWord⟩) (q := ⟨between,.mark m⟩) h
    obtain rfl | rfl := hm
    · simp [hahead,binds,hmarks]
    · simp [hahead,binds,hmarks]
  | cons n names =>
    have hahead := State.Before.ahead_one (p := ⟨gap,.word first.toWord⟩) (q := ⟨.none,.mark .dot⟩) h
    simp [hahead,binds,hmarks]

/-- A member starts with a name, and with no declaration. -/
lemma binds_member (m : Member) (h : s.Before source (m.lead w level ++ (m.value w level ++ later))) :
    s.peek.kind = .name ∧ (binds (s.ahead 1) ∨ startsUppercase s.peek.text) := by
  have hname {d : DottedName} {later : List Piece} {gap : Gap}
      (h : s.Before source (d.pieces gap ++ later)) :
      s.peek = (Piece.mk gap (.word d.first.toWord)).token s.previousStop := State.Before.peek_cons h
  have htype {type : TypeName} {later : List Piece} {gap : Gap}
      (h : s.Before source (type.pieces gap ++ later)) :
      s.peek.kind = .name ∧ (binds (s.ahead 1) ∨ startsUppercase s.peek.text) := by
    rw [hname h]
    exact ⟨rfl,.inr (type.capital _ List.mem_cons_self)⟩
  cases m
  case group name members => exact ⟨by rw [hname h]; rfl,.inl (binds_dottedName (.inr rfl) h)⟩
  case put object target =>
    obtain ⟨type,members⟩ := object
    simp only [Member.lead,Member.value,putHead,List.nil_append,List.append_assoc] at h
    exact htype h
  case child object =>
    obtain ⟨type,members⟩ := object
    simp only [Member.lead,Member.value,Sketch.pieces,List.nil_append,List.append_assoc] at h
    exact htype h
  all_goals
    rw [Member.lead,List.append_assoc,List.singleton_append] at h
    exact ⟨by rw [hname h]; rfl,.inl (binds_dottedName (.inl rfl) h)⟩

/-- A line with a member starts with a name. -/
lemma exists_line (w level : Nat) (m : Member) : ∃ (name : Name) (later : List Piece),
    m.lead w level ++ m.value w level = ⟨.line (w * level),.word name.toWord⟩ :: later := by
  cases m
  case put object target =>
    obtain ⟨type,members⟩ := object
    exact ⟨type.first,_,rfl⟩
  case child object =>
    obtain ⟨type,members⟩ := object
    exact ⟨type.first,_,rfl⟩
  all_goals exact ⟨_,_,rfl⟩

/-- A line with a member. -/
lemma objectMember_draws (hgo : Grasps source w height go) (m : Member)
    (h : s.Before source (m.lead w level ++ (m.value w level ++ later))) (hheight : m.height ≤ height)
    (hstop : StopsScript later) (hdepth : s.depth + height + 3 ≤ maxNesting) :
    Ends [] (everyRound (objectMember go)) s
      (Past source s (m.lead w level ++ m.value w level) later fun r =>
        ∃ n, r = ⟨[n],true⟩ ∧ DrawsMember source w level m n) := by
  obtain ⟨hkind,hbinds⟩ := binds_member m h
  have hmember := bindingMember_draws hgo m h hheight hstop hdepth
  obtain ⟨name,line,hline⟩ := exists_line w level m
  unfold DrawsLine at hmember
  rw [hline] at hmember ⊢
  have hobject : Ends [] (objectMember go) s
      (Past source s (⟨.line (w * level),.word name.toWord⟩ :: line) later fun nodes =>
        ∃ n, nodes = [n] ∧ DrawsMember source w level m n) := by
    unfold objectMember
    rw [ends_peek,hkind,if_pos (by decide),ends_ahead,ends_ahead,namedMember_eq hbinds]
    refine hmember.past (.refl s) fun n t hn ht hpassed => ?_
    exact ⟨⟨n,rfl,hn⟩,ht,hpassed⟩
  unfold everyRound
  refine (ends_progressing hobject).past (.refl s) fun nodes t hnodes ht hpassed => ?_
  obtain ⟨n,rfl,hn⟩ := hnodes
  exact ⟨⟨n,rfl,hn⟩,ht,hpassed⟩

/-- The lines between braces. -/
lemma lines_draw (hgo : Grasps source w height go) (members : List Member) (rounds : Nat)
    (h : s.Before source (lines w level members ++ ⟨gap,.mark .closing⟩ :: later))
    (hheight : highest members ≤ height) (hdepth : s.depth + height + 3 ≤ maxNesting)
    (hrounds : members.length ≤ rounds) :
    Ends [] (collectWithin (roundUntil (·.isPunct "\x7d") (everyRound (objectMember go))) (rounds + 1)) s
      (Past source s (lines w level members) (⟨gap,.mark .closing⟩ :: later) fun nodes =>
        List.Forall₂ (DrawsMember source w level) members nodes) := by
  induction members generalizing s rounds with
  | nil =>
    have hclosing : s.peek.isPunct "\x7d" = true := by
      rw [State.Before.peek_cons h,Piece.token_mark_isPunct]
      decide
    unfold collectWithin roundUntil
    rw [bind_assoc,ends_peek]
    simp only [hclosing,Bool.true_or,if_true]
    exact ⟨.nil,h,.refl s⟩
  | cons m members ih =>
    obtain ⟨rounds,rfl⟩ := Nat.exists_eq_add_of_le' (Nat.le_trans (Nat.succ_pos _) hrounds)
    obtain ⟨hm,hmembers⟩ := Nat.max_le.mp hheight
    rw [lines,List.append_assoc,List.append_assoc] at h
    have hnext : StopsScript (lines w level members ++ ⟨gap,.mark .closing⟩ :: later) := by
      cases members with
      | nil => exact ⟨_,_,rfl,.inl rfl⟩
      | cons next members =>
        obtain ⟨name,line,hline⟩ := exists_line w level next
        rw [lines,← List.append_assoc,hline]
        exact ⟨_,_,rfl,.inr ⟨rfl,name,rfl⟩⟩
    have hname : (s.peek.isPunct "\x7d" || s.peek.kind == .eof) = false := by
      simp [Token.isPunct,(binds_member m h).1]
    unfold collectWithin roundUntil
    rw [bind_assoc,ends_peek,hname]
    refine (objectMember_draws hgo m h hm hnext hdepth).past (.refl s) fun r t hr ht hpassed => ?_
    obtain ⟨n,rfl,hn⟩ := hr
    have hdepth' : t.depth + height + 3 ≤ maxNesting := by rwa [hpassed.depth]
    have hlater := ih rounds ht hmembers hdepth' (Nat.le_of_succ_le_succ hrounds)
    refine hlater.past hpassed fun nodes u hnodes hu hall => ?_
    rw [lines,← List.append_assoc]
    exact ⟨.cons hn hnodes,hu,hall⟩

lemma length_lines (w level : Nat) (members : List Member) :
    members.length ≤ (lines w level members).length := by
  induction members with
  | nil => exact Nat.le_refl _
  | cons m members ih =>
    obtain ⟨name,line,hline⟩ := exists_line w level m
    rw [lines,← List.append_assoc,hline]
    simp only [List.length_cons,List.length_append]
    omega

/-- What is in braces is drawn. -/
lemma readInitializer_draws (hgo : Grasps source w height go)
    (h : s.Before source (braces w level members ++ later)) (hheight : highest members ≤ height)
    (hdepth : s.depth + height + 3 ≤ maxNesting) :
    Ends [] (readInitializer go) s (DrawsBlock source w level members s later) := by
  have hinner : s.Before source (⟨.blank,.mark .opening⟩ :: (lines w (level + 1) members ++
      ⟨.line (w * level),.mark .closing⟩ :: later)) := by
    simpa [braces,braced] using h
  obtain ⟨ht,hpassed⟩ := hinner.advance
  have hrounds : members.length ≤ s.advance.rest.length := by
    have := length_lines w (level + 1) members
    simp only [ht.rest,length_tokensAt,List.length_append]
    omega
  have hdepth' : s.advance.depth + height + 3 ≤ maxNesting := by rwa [hpassed.depth]
  have hlines : Ends [] (collectUntil (·.isPunct "\x7d") (everyRound (objectMember go))) s.advance _ :=
    lines_draw hgo members _ ht hheight hdepth' hrounds
  unfold readInitializer
  rw [ends_start,ends_known (discard_expectPunct hinner (by decide)),hinner.front_cons]
  refine hlines.past hpassed fun nodes u hnodes hu hall => ?_
  obtain ⟨hv,hlast⟩ := hu.advance
  have hall : s.Passed (braces w level members) u.advance := by
    simpa [braces,braced] using hall.trans hlast
  rw [ends_known (discard_expectPunct hu (by decide))]
  exact ends_finish hall hv fun id => ⟨rfl,fills_of_kind rfl hnodes⟩

end QmlCodeModel.Grammar
