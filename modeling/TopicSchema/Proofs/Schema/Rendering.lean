import TopicSchema.Compile
import TopicSchema.Proofs.Except

/-! The blocks that a list of definitions is written as, as a relation without the bound on nesting.
Everything about schemas is proved by induction on it. -/

namespace TopicSchema

namespace Schema

/-- A definition of the type `typeName`, to be written under the name `name`. -/
structure Copy where
  name : String
  typeName : String
  definition : Definition

namespace Copy

def ofMessage (scope : String) (m : Message) : Copy :=
  ⟨m.name, TypeName.qualify scope m.name, .message m⟩

def ofEnumeration (scope : String) (e : Enumeration) : Copy :=
  ⟨e.name, TypeName.qualify scope e.name, .enumeration e⟩

def ofOwed (o : Owed) : Copy :=
  ⟨TypeName.flattened o.typeName, o.typeName, o.definition⟩

def fields : Copy → List Field
  | ⟨_, _, .message m⟩ => m.fields
  | ⟨_, _, .enumeration _⟩ => []

def nested : Copy → List Copy
  | ⟨_, scope, .message m⟩ =>
    m.messages.map (ofMessage scope) ++ m.enumerations.map (ofEnumeration scope)
  | ⟨_, _, .enumeration _⟩ => []

end Copy

/-- The copies are written as the blocks. The first list holds the types named before, the last one
the types named when all is written. -/
inductive Renders (index : TypeIndex) (encoding : Encoding) :
    List String → List Copy → List Block → List String → Prop
  | nil {placed : List String} : Renders index encoding placed [] [] placed
  | enumeration {placed placed' : List String} {name typeName : String} {e : Enumeration}
      {copies : List Copy} {blocks : List Block} :
      Renders index encoding placed copies blocks placed' →
      Renders index encoding placed (⟨name, typeName, .enumeration e⟩ :: copies)
        (enumerationBlock name typeName e :: blocks) placed'
  | message {placed placed₁ placed₂ placed' : List String} {name typeName : String} {m : Message}
      {lines : List FieldLine} {owed : List Owed} {copies : List Copy}
      {inner flattened blocks : List Block} :
      fieldLines index encoding typeName placed m.fields = .ok (lines, owed) →
      Renders index encoding (placed ++ owed.map (·.typeName))
        (Copy.nested ⟨name, typeName, .message m⟩) inner placed₁ →
      Renders index encoding placed₁ (owed.map Copy.ofOwed) flattened placed₂ →
      Renders index encoding placed₂ copies blocks placed' →
      Renders index encoding placed (⟨name, typeName, .message m⟩ :: copies)
        (.message name typeName lines inner flattened :: blocks) placed'

variable {index : TypeIndex} {encoding : Encoding}

lemma Renders.append {placed placed₁ placed₂ : List String} {copies₁ copies₂ : List Copy}
    {blocks₁ blocks₂ : List Block} (h₁ : Renders index encoding placed copies₁ blocks₁ placed₁)
    (h₂ : Renders index encoding placed₁ copies₂ blocks₂ placed₂) :
    Renders index encoding placed (copies₁ ++ copies₂) (blocks₁ ++ blocks₂) placed₂ := by
  induction h₁ with
  | nil => exact h₂
  | enumeration _ ih => exact .enumeration (ih h₂)
  | message hl hi hf _ _ _ ih => exact .message hl hi hf (ih h₂)

lemma renders_enumerations (placed : List String) (scope : String) (es : List Enumeration) :
    Renders index encoding placed (es.map (Copy.ofEnumeration scope))
      (es.map fun e => enumerationBlock e.name (TypeName.qualify scope e.name) e) placed := by
  induction es with
  | nil => exact .nil
  | cons e es ih => exact .enumeration ih

lemma defineAll_renders {define : Definer}
    (hd : ∀ placed o b placed', define placed o = .ok (b, placed') →
      Renders index encoding placed [Copy.ofOwed o] [b] placed')
    {placed placed' : List String} {owed : List Owed} {blocks : List Block}
    (h : defineAll define placed owed = .ok (blocks, placed')) :
    Renders index encoding placed (owed.map Copy.ofOwed) blocks placed' := by
  induction owed generalizing placed blocks with
  | nil =>
    cases h
    exact .nil
  | cons o owed ih =>
    obtain ⟨⟨b, placed₁⟩, hb, h⟩ := bind_eq_ok.mp h
    obtain ⟨⟨bs, placed₂⟩, hbs, h⟩ := bind_eq_ok.mp h
    cases h
    exact (hd _ _ _ _ hb).append (ih hbs)

mutual

theorem messageBlock_renders {define : Definer}
    (hd : ∀ placed o b placed', define placed o = .ok (b, placed') →
      Renders index encoding placed [Copy.ofOwed o] [b] placed')
    {placed placed' : List String} {name scope : String} {b : Block} :
    ∀ {m : Message}, messageBlock index encoding define placed name scope m = .ok (b, placed') →
      Renders index encoding placed [⟨name, scope, .message m⟩] [b] placed'
  | ⟨_, fields, messages, enumerations⟩, h => by
    rw [messageBlock] at h
    obtain ⟨⟨lines, owed⟩, hl, h⟩ := bind_eq_ok.mp h
    obtain ⟨⟨inner, placed₁⟩, hi, h⟩ := bind_eq_ok.mp h
    obtain ⟨⟨flattened, placed₂⟩, hf, h⟩ := bind_eq_ok.mp h
    cases h
    exact .message hl ((nestedBlocks_renders hd hi).append (renders_enumerations _ _ _))
      (defineAll_renders hd hf) .nil

theorem nestedBlocks_renders {define : Definer}
    (hd : ∀ placed o b placed', define placed o = .ok (b, placed') →
      Renders index encoding placed [Copy.ofOwed o] [b] placed')
    {placed placed' : List String} {scope : String} {blocks : List Block} :
    ∀ {ms : List Message},
      nestedBlocks index encoding define placed scope ms = .ok (blocks, placed') →
      Renders index encoding placed (ms.map (Copy.ofMessage scope)) blocks placed'
  | [], h => by
    cases h
    exact .nil
  | m :: ms, h => by
    rw [nestedBlocks] at h
    obtain ⟨⟨b, placed₁⟩, hb, h⟩ := bind_eq_ok.mp h
    obtain ⟨⟨bs, placed₂⟩, hbs, h⟩ := bind_eq_ok.mp h
    cases h
    exact (messageBlock_renders hd hb).append (nestedBlocks_renders hd hbs)

end

lemma definer_renders {budget : Nat} {placed placed' : List String} {o : Owed} {b : Block}
    (h : definer index encoding budget placed o = .ok (b, placed')) :
    Renders index encoding placed [Copy.ofOwed o] [b] placed' := by
  induction budget generalizing placed o b placed' with
  | zero => cases h
  | succ budget ih =>
    obtain ⟨typeName, definition⟩ := o
    cases definition with
    | message m => exact messageBlock_renders (fun _ _ _ _ => ih) h
    | enumeration e =>
      cases h
      exact .enumeration .nil

theorem rootBlock_renders {scope : String} {m : Message} {root : Block} {placed : List String}
    (h : rootBlock index encoding scope m = .ok (root, placed)) :
    Renders index encoding [] [Copy.ofMessage scope m] [root] placed :=
  messageBlock_renders (fun _ _ _ _ => definer_renders) h

def IsSchema (index : TypeIndex) (options : Options) (file : ProtoFile) (text : String)
    (source : Copy) (root : Block) : Prop :=
  ∃ m placed, file.messages = [m] ∧ source = Copy.ofMessage file.scope m ∧
    rootBlock index options.encoding file.scope m = .ok (root, placed) ∧
    text = schemaText options.dialect root

lemma exists_isSchema {options : Options} {file : ProtoFile} {text : String}
    (h : compile index options file = .ok text) :
    ∃ source root, IsSchema index options file text source root := by
  rw [compile] at h
  split at h
  · next m hm =>
    obtain ⟨⟨root, placed⟩, hr, h⟩ := bind_eq_ok.mp h
    cases h
    exact ⟨_, root, m, placed, hm, rfl, hr, rfl⟩
  · cases h

lemma IsSchema.renders {options : Options} {file : ProtoFile} {text : String} {source : Copy}
    {root : Block} (h : IsSchema index options file text source root) :
    ∃ placed, Renders index options.encoding [] [source] [root] placed := by
  obtain ⟨m, placed, _, rfl, hr, _⟩ := h
  exact ⟨placed, rootBlock_renders hr⟩

end Schema

end TopicSchema
