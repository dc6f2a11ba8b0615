import Mathlib.Data.Multiset.Filter
import SymbolPatterns.Proofs.Grammar.Finding

/-!
Lookup goes by names. Similar documents differ only in the order of items and
fields and in generated items. They show the same nodes up to order and
similarity, so a name leads to similar nodes in both, or is missing from both,
or is ambiguous in both with the same count.
-/

namespace SymbolPatterns.Grammar

open Json (Fields)

/-- One value is made from the other by reordering lists and objects and by
putting in or taking out generated items, at any depth. Objects that are
reordered have each key once. Changes may be made one after another and inside
one another, as the rules are closed under both. -/
inductive Similar : Json → Json → Prop
  | refl (value : Json) : Similar value value
  | symm {a b : Json} : Similar a b → Similar b a
  | trans {a b c : Json} : Similar a b → Similar b c → Similar a c
  | item (front rest : List Json) {a b : Json} : Similar a b →
      Similar (.array (front ++ a :: rest)) (.array (front ++ b :: rest))
  | field (front rest : Fields) (key : String) {a b : Json} : Similar a b →
      Similar (.object (front ++ (key, a) :: rest)) (.object (front ++ (key, b) :: rest))
  | reorderItems {items other : List Json} : items.Perm other →
      Similar (.array items) (.array other)
  | reorderFields {fields other : Fields} : fields.keys.Nodup → fields.Perm other →
      Similar (.object fields) (.object other)
  | generatedItem (front rest : List Json) {node : Fields} : isGenerated node = true →
      Similar (.array (front ++ rest)) (.array (front ++ .object node :: rest))

def textOf? : Json → Option String
  | .string text => some text
  | _ => none

def textUnder? (key : String) : Json → Option String
  | .object fields => Fields.text? fields key
  | _ => none

theorem text?_eq_bind (fields : Fields) (key : String) :
    fields.text? key = (fields.get? key).bind textOf? := by
  unfold Fields.text?
  rcases fields.get? key with _ | (_ | _ | _ | _ | _ | _) <;> rfl

/-- What lookup reads of a value itself, apart from the nodes inside it: its
text, if it is one, and the texts in its fields, among them its name and its
comment. -/
structure LooksLike (a b : Json) : Prop where
  text : textOf? a = textOf? b
  texts : ∀ key, textUnder? key a = textUnder? key b

theorem text?_replace {a b : Json} (h : textOf? a = textOf? b) (front rest : Fields)
    (key k : String) :
    Fields.text? (front ++ (key, a) :: rest) k = Fields.text? (front ++ (key, b) :: rest) k := by
  simp only [text?_eq_bind]
  induction front with
  | nil =>
      simp only [List.nil_append, Json.Fields.get?_cons]
      split
      · exact h
      · rfl
  | cons field front ih =>
      obtain ⟨other, value⟩ := field
      simp only [List.cons_append, Json.Fields.get?_cons]
      split
      · rfl
      · exact ih

theorem Similar.looksLike {a b : Json} (h : Similar a b) : LooksLike a b := by
  induction h with
  | refl => exact ⟨rfl, fun _ => rfl⟩
  | symm _ ih => exact ⟨ih.text.symm, fun key => (ih.texts key).symm⟩
  | trans _ _ ih₁ ih₂ =>
      exact ⟨ih₁.text.trans ih₂.text, fun key => (ih₁.texts key).trans (ih₂.texts key)⟩
  | item | reorderItems | generatedItem => exact ⟨rfl, fun _ => rfl⟩
  | field front rest key _ ih => exact ⟨rfl, fun k => text?_replace ih.text front rest key k⟩
  | reorderFields hkeys hperm =>
      refine ⟨rfl, fun key => ?_⟩
      simp only [textUnder?, text?_eq_bind, Json.Fields.get?_perm hkeys hperm]

theorem Similar.text? {fields other : Fields} (h : Similar (.object fields) (.object other))
    (key : String) : fields.text? key = other.text? key :=
  h.looksLike.texts key

theorem Similar.isGenerated {fields other : Fields}
    (h : Similar (.object fields) (.object other)) :
    Grammar.isGenerated fields = Grammar.isGenerated other := by
  rw [Grammar.isGenerated, Grammar.isGenerated, h.text?]

theorem Similar.carries {fields other : Fields} (h : Similar (.object fields) (.object other))
    (role : Role) (name : String) : Grammar.carries role fields name =
      Grammar.carries role other name := by
  cases role <;> simp [Grammar.carries, h.text?]

/-- Two nodes with the same role that are similar. They need not be equal, as
a list inside them may be in another order. -/
structure SameNode (a b : Role × Fields) : Prop where
  role : a.1 = b.1
  node : Similar (.object a.2) (.object b.2)

instance : IsTrans (Role × Fields) SameNode where
  trans _ _ _ h₁ h₂ := ⟨h₁.role.trans h₂.role, h₁.node.trans h₂.node⟩

/-- The nodes of two lists match in some order. Lookup counts nodes, so an
order is more than it can tell. -/
def SameNodes (found other : List (Role × Fields)) : Prop := Multiset.Rel SameNode found other

namespace SameNodes

variable {found other third : List (Role × Fields)}

theorem of_perm (h : found.Perm other) : SameNodes found other := by
  rw [SameNodes, Multiset.coe_eq_coe.2 h]
  exact Multiset.rel_refl_of_refl_on fun node _ => ⟨rfl, .refl _⟩

theorem refl (found : List (Role × Fields)) : SameNodes found found := of_perm (.refl found)

theorem symm (h : SameNodes found other) : SameNodes other found :=
  (Multiset.rel_flip.2 h).mono fun _ _ _ _ hnode => ⟨hnode.role.symm, hnode.node.symm⟩

theorem trans (h₁ : SameNodes found other) (h₂ : SameNodes other third) : SameNodes found third :=
  Multiset.Rel.trans SameNode h₁ h₂

theorem append {found' other' : List (Role × Fields)} (h : SameNodes found other)
    (h' : SameNodes found' other') : SameNodes (found ++ found') (other ++ other') := by
  rw [SameNodes, ← Multiset.coe_add, ← Multiset.coe_add]
  exact Multiset.Rel.add h h'

theorem cons {a b : Role × Fields} (hnode : SameNode a b) (h : SameNodes found other) :
    SameNodes (a :: found) (b :: other) := Multiset.Rel.cons hnode h

theorem flatMap_replace {α : Type} (look : α → List (Role × Fields)) {x y : α}
    (h : SameNodes (look x) (look y)) (front rest : List α) :
    SameNodes ((front ++ x :: rest).flatMap look) ((front ++ y :: rest).flatMap look) := by
  simp only [List.flatMap_append, List.flatMap_cons]
  exact (refl _).append (h.append (refl _))

theorem length_eq (h : SameNodes found other) : found.length = other.length :=
  Multiset.card_eq_card_of_rel h

theorem carriers (h : SameNodes found other) (name : String) :
    SameNodes (carriers name found) (carriers name other) := by
  have hfilter : ∀ s t : Multiset (Role × Fields), Multiset.Rel SameNode s t →
      Multiset.Rel SameNode (s.filter fun node => Grammar.carries node.1 node.2 name)
        (t.filter fun node => Grammar.carries node.1 node.2 name) := by
    intro s t hst
    induction hst with
    | zero => exact Multiset.Rel.zero
    | @cons a b s t hnode _ ih =>
        have hcarries : Grammar.carries a.1 a.2 name = Grammar.carries b.1 b.2 name := by
          rw [hnode.role, hnode.node.carries]
        rw [Multiset.filter_cons, Multiset.filter_cons, hcarries]
        refine Multiset.Rel.add ?_ ih
        split
        · exact Multiset.Rel.cons hnode Multiset.Rel.zero
        · exact Multiset.Rel.zero
  simpa [SameNodes, Grammar.carriers] using hfilter _ _ h

end SameNodes

/-- Two values show the same nodes, in every role and under every key. A value
can hold nodes or entries by the key it stands under, so both are needed
before the key is known. -/
structure ShowSame (a b : Json) : Prop where
  nodes : ∀ role, SameNodes (nodes role a) (nodes role b)
  field : ∀ key, SameNodes (fieldNodes key a) (fieldNodes key b)

theorem showSame_array {items other : List Json}
    (h : SameNodes (items.flatMap (nodes .pattern)) (other.flatMap (nodes .pattern))) :
    ShowSame (.array items) (.array other) := by
  refine ⟨fun role => ?_, fun key => ?_⟩
  · rwa [nodes_array, nodes_array]
  · rwa [fieldNodes_array, fieldNodes_array]

theorem showSame_object {fields other : Fields} (h : Similar (.object fields) (.object other))
    (hinner : SameNodes (innerNodes fields) (innerNodes other))
    (hentries : ∀ role : String → Role,
      SameNodes (fields.flatMap fun entry => nodes (role entry.1) entry.2)
        (other.flatMap fun entry => nodes (role entry.1) entry.2)) :
    ShowSame (.object fields) (.object other) := by
  have hnodes : ∀ role, SameNodes (nodes role (.object fields)) (nodes role (.object other)) := by
    intro role
    rw [nodes_object, nodes_object, h.isGenerated]
    split
    · exact .refl []
    · exact .cons ⟨rfl, h⟩ hinner
  refine ⟨hnodes, fun key => ?_⟩
  cases hrole : entryRole? key with
  | none =>
      have hvalue : ∀ list, ¬HoldsEntries key (.object list) := fun list hholds => by
        simp [HoldsEntries, hrole] at hholds
      rw [fieldNodes_value (hvalue fields), fieldNodes_value (hvalue other)]
      exact hnodes .pattern
  | some role =>
      rw [fieldNodes_entries fields hrole, fieldNodes_entries other hrole]
      exact hentries role

theorem Similar.showSame {a b : Json} (h : Similar a b) : ShowSame a b := by
  induction h with
  | refl value => exact ⟨fun _ => .refl _, fun _ => .refl _⟩
  | symm _ ih => exact ⟨fun role => (ih.nodes role).symm, fun key => (ih.field key).symm⟩
  | trans _ _ ih₁ ih₂ =>
      exact ⟨fun role => (ih₁.nodes role).trans (ih₂.nodes role),
        fun key => (ih₁.field key).trans (ih₂.field key)⟩
  | item front rest _ ih =>
      exact showSame_array (.flatMap_replace (nodes .pattern) (ih.nodes .pattern) front rest)
  | field front rest key hab ih =>
      refine showSame_object (.field front rest key hab) ?_ fun role => ?_
      · rw [innerNodes_eq_flatMap, innerNodes_eq_flatMap]
        exact .flatMap_replace (fun field : String × Json => fieldNodes field.1 field.2)
          (ih.field key) front rest
      · exact .flatMap_replace (fun entry : String × Json => nodes (role entry.1) entry.2)
          (ih.nodes (role key)) front rest
  | reorderItems hperm => exact showSame_array (.of_perm (hperm.flatMap_right _))
  | reorderFields hkeys hperm =>
      refine showSame_object (.reorderFields hkeys hperm) ?_ fun role =>
        .of_perm (hperm.flatMap_right _)
      rw [innerNodes_eq_flatMap, innerNodes_eq_flatMap]
      exact .of_perm (hperm.flatMap_right _)
  | generatedItem front rest hgen =>
      refine showSame_array ?_
      rw [List.flatMap_append, List.flatMap_append, List.flatMap_cons,
        nodes_of_isGenerated .pattern hgen, List.nil_append]
      exact .refl _

/-- Lookup has the same outcome in similar documents, and finds similar nodes.
If it fails, it fails in the same way, with the same count of nodes. So
neither the order of a document nor what runs have put into its lists decides
what an edit hits. The addresses may differ, and hand-written nodes that are
added are not covered. -/
theorem find_similar {document other : Fields} (h : Similar (.object document) (.object other))
    (name : String) :
    (find document name = .error (.patternNotFound name) ∧
        find other name = .error (.patternNotFound name)) ∨
      (∃ count, find document name = .error (.ambiguousPattern name count) ∧
        find other name = .error (.ambiguousPattern name count)) ∨
      ∃ node node', find document name = .ok node ∧ find other name = .ok node' ∧
        Similar (.object node) (.object node') := by
  have hsame : SameNodes (carriers name (documentNodes document))
      (carriers name (documentNodes other)) := (h.showSame.nodes .pattern).carriers name
  rw [carriers_documentNodes, carriers_documentNodes, ← bearers, ← bearers] at hsame
  have hlength := hsame.length_eq
  rw [List.length_map, List.length_map] at hlength
  rw [find_eq_of_bearers, find_eq_of_bearers]
  generalize bearers (.object document) name = found at hsame hlength ⊢
  generalize bearers (.object other) name = found' at hsame hlength ⊢
  rcases found with _ | ⟨s, _ | ⟨s', rest⟩⟩ <;> rcases found' with _ | ⟨t, _ | ⟨t', rest'⟩⟩
  case nil.nil => exact .inl ⟨rfl, rfl⟩
  case cons.nil.cons.nil =>
    obtain ⟨node, hmem, hnode⟩ :=
      Multiset.exists_mem_of_rel_of_mem hsame (Multiset.mem_singleton_self s.seen)
    obtain rfl := Multiset.mem_singleton.1 hmem
    exact .inr (.inr ⟨s.node, t.node, rfl, rfl, hnode.node⟩)
  case cons.cons.cons.cons => exact .inr (.inl ⟨_, rfl, by rw [hlength]⟩)
  -- The other cases have lists of different lengths.
  all_goals simp at hlength

/-- The rule of `sharedName` with its fields turned round, without the
generated rule. No two fields stand where they stood. -/
def turnedRule : Fields :=
  [("patterns", .array [.object [
    ("captures", .object [("1", .object [("name", .string "entity")])]),
    ("match", .string "(B)"), ("name", .string "entity")]])]

theorem turnedRule_similar : Similar (.object sharedName) (.object turnedRule) := by
  refine .field [] [] "patterns" (.trans (.symm (.generatedItem [] _ rfl)) ?_)
  exact .item [] [] (.reorderFields (by decide) (by decide))

theorem turnedRule_found : Similar (.object sharedName) (.object turnedRule) ∧
    ∃ node node', find sharedName "entity" = .ok node ∧ find turnedRule "entity" = .ok node' ∧
      Similar (.object node) (.object node') := by
  have hfound : find sharedName "entity" = .ok _ := rfl
  refine ⟨turnedRule_similar, ?_⟩
  rcases find_similar turnedRule_similar "entity" with ⟨hnone, -⟩ | ⟨_, hseveral, -⟩ | hone
  · cases hfound.symm.trans hnone
  · cases hfound.symm.trans hseveral
  · exact hone

end SymbolPatterns.Grammar
