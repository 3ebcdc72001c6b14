import QmlCodeModel.Proofs.Grammar.Clean.Source
import QmlCodeModel.Proofs.Grammar.Moves.Reading
import QmlCodeModel.Proofs.Token.NumberValue

/-! The values of enumerations. Each member of one is written in the tokens, and a value that is written is kept if
its number is plain. Other numbers are read without an error too, and then the member has no value. -/
namespace QmlCodeModel

/-- The members of the enumerations of a source. -/
def Parse.enumMembers (p : Parse) : List EnumMember :=
  p.nodes.toList.flatMap fun n => match n.kind with
    | .enumDeclaration _ members => members
    | _ => []

namespace Grammar

variable {tokens : List Token} {s t : State}

/-- By induction on the steps: only a step that makes a node adds one. -/
lemma Goes.attested (h : Goes tokens s t) : ∀ n ∈ t.nodes.toList, n ∈ s.nodes.toList ∨ n.kind.Attested tokens := by
  induction h with
  | append _ _ ih ih' =>
    intro n hn
    obtain hn | hattested := ih' n hn
    · exact ih n hn
    · exact .inr hattested
  | make s span kind attested =>
    intro n hn
    change n ∈ (s.nodes.push _).toList at hn
    rw [Array.toList_push] at hn
    obtain hn | hn := List.mem_append.mp hn
    · exact .inl hn
    · rw [List.mem_singleton.mp hn]
      exact .inr attested
  | token s =>
    rw [s.nodes_advance]
    exact fun _ => .inl
  | complaint s fault _ =>
    rw [s.nodes_report]
    exact fun _ => .inl
  | target s offset _ =>
    rw [State.nodes_advance,s.nodes_report]
    exact fun _ => .inl
  | inside _ _ _ _ _ ih => exact ih
  | _ => exact fun _ => .inl

/-- The members of enumerations stand in the source, with errors or without. -/
lemma attested_of_parse? {form : SourceForm} {source : String} {p : Parse} (h : parse? form source = some p) :
    ∀ m ∈ p.enumMembers, m.Attested (tokenize source.toList).tokens.toList.dropLast := by
  obtain ⟨root,t,hreading,-,hnodes,-⟩ := reading_of_parse? h
  have hfresh := fresh_opening source.toList
  have hgoes := goes_reading hreading
  rw [hfresh.rest] at hgoes
  intro m hm
  obtain ⟨n,hn,hm⟩ := List.mem_flatMap.mp hm
  rw [hnodes] at hn
  have hattested := (hgoes.attested n hn).resolve_left (by simp [hfresh.nodes])
  split at hm
  · rename_i name members hkind
    rw [hkind] at hattested
    exact hattested m hm
  · cases hm

/-- In a source that is read with success, a member has a value exactly if one is written as a plain number. -/
theorem parse?_enumMembers {form : SourceForm} {source : String} {p : Parse} (h : parse? form source = some p)
    (hsuccess : p.success) {m : EnumMember} (hm : m ∈ p.enumMembers) :
    ∃ name later, (name :: later) <:+ (tokenize source.toList).tokens.toList.dropLast ∧ m.name = identOf name ∧
      ((∀ negative number, ¬WritesValue later negative number) → m.value = none) ∧
      ∀ negative number, WritesValue later negative number →
        IsToken .number number.text.toList ∧
          m.value = (Double.ofDecimalText? number.text.toList).map (fun v => if negative then v.neg else v) ∧
          (m.value.isSome ↔ IsPlainNumber number.text.toList) := by
  obtain ⟨name,later,hsuffix,hname,hfollows⟩ := attested_of_parse? h m hm
  have hfaults := (clean_of_success h hsuccess).2.1
  refine ⟨name,later,hsuffix,hname,hfollows.none,fun negative number hwrites => ?_⟩
  have hmem : number ∈ later ∧ number.kind = .number := by
    cases hwrites with
    | plain _ hnumber | negative _ _ hnumber => exact ⟨by simp,hnumber⟩
  have htoken : IsToken .number number.text.toList := by
    refine isToken_of_mem_tokens hfaults (List.dropLast_subset _ ?_) hmem.2
    exact hsuffix.subset (List.mem_cons_of_mem _ hmem.1)
  have hvalue := hfollows.some hwrites
  refine ⟨htoken,hvalue,?_⟩
  rw [hvalue,Option.isSome_map]
  exact isSome_ofDecimalText?_iff htoken

/-- A negative number, no number and one in hexadecimal digits. -/
theorem parse?_enumMembers_three : ∃ p, parse? .qml "A \x7b enum E \x7b X = -1, Y, Z = 0xF \x7d \x7d" = some p ∧
    p.success ∧ p.enumMembers.map (·.value.isSome) = [true,false,false] ∧
    ∀ m ∈ p.enumMembers, ∃ name later, m.name = identOf name ∧
      ∀ negative number, WritesValue later negative number →
        (m.value.isSome ↔ IsPlainNumber number.text.toList) := by
  have hread : (parse? .qml "A \x7b enum E \x7b X = -1, Y, Z = 0xF \x7d \x7d").any fun p =>
      p.success ∧ p.enumMembers.map (·.value.isSome) = [true,false,false] := by
    decide +kernel
  obtain ⟨p,hp,hchecks⟩ := (Option.any_eq_true _ _).mp hread
  obtain ⟨hsuccess,hvalues⟩ := of_decide_eq_true hchecks
  refine ⟨p,hp,hsuccess,hvalues,fun m hm => ?_⟩
  obtain ⟨name,later,-,hname,-,hwritten⟩ := parse?_enumMembers hp hsuccess hm
  exact ⟨name,later,hname,fun negative number hwrites => (hwritten negative number hwrites).2.2⟩

/-- A number in hexadecimal digits is one token without a fault, and the value is lost without a message. -/
theorem parse?_enumMembers_hex :
    ∃ p m name equals number later, parse? .qml "A \x7b enum E \x7b X = 0x10 \x7d \x7d" = some p ∧ p.success ∧
      p.diagnostics = [] ∧ p.enumMembers = [m] ∧
      (name :: equals :: number :: later) <:+
        (tokenize "A \x7b enum E \x7b X = 0x10 \x7d \x7d".toList).tokens.toList.dropLast ∧
      m.name = identOf name ∧ WritesValue (equals :: number :: later) false number ∧ m.value = none := by
  have hread : (parse? .qml "A \x7b enum E \x7b X = 0x10 \x7d \x7d").any fun p =>
      p.success ∧ p.diagnostics.isEmpty ∧ p.enumMembers = [⟨⟨"X",⟨13,14⟩⟩,none⟩] := by
    decide +kernel
  obtain ⟨p,hp,hchecks⟩ := (Option.any_eq_true _ _).mp hread
  obtain ⟨hsuccess,hdiagnostics,hmembers⟩ := of_decide_eq_true hchecks
  have htokens : (⟨.name,⟨13,14⟩,"X",false⟩ :: ⟨.punct,⟨15,16⟩,"=",false⟩ :: ⟨.number,⟨17,21⟩,"0x10",false⟩ ::
      [⟨.punct,⟨22,23⟩,"\x7d",false⟩,⟨.punct,⟨24,25⟩,"\x7d",false⟩] : List Token) <:+
        (tokenize "A \x7b enum E \x7b X = 0x10 \x7d \x7d".toList).tokens.toList.dropLast := by
    decide +kernel
  exact ⟨p,_,_,_,_,_,hp,hsuccess,List.isEmpty_iff.mp hdiagnostics,hmembers,htokens,rfl,.plain rfl rfl,rfl⟩

end Grammar
end QmlCodeModel
