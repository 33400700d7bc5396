import TopicSchema.Proofs.Definitions
import TopicSchema.Proofs.Schema.Closure
import TopicSchema.Proofs.TypeName

namespace TopicSchema.Schema

def DistinctNames (root : Block) : Prop :=
  ∀ d ∈ root.definitions, ∀ e ∈ root.definitions, d.typeName ≠ e.typeName → d.name ≠ e.name

variable {index : TypeIndex} {encoding : Encoding} {placed : List String}
variable {source : Copy} {root : Block}

lemma definition_name (hr : Renders index encoding [] [source] [root] placed) {d : Block}
    (hd : d ∈ root.definitions) : d.name = TypeName.flattened d.typeName := by
  obtain ⟨b, hb, hd⟩ := List.mem_flatMap.mp hd
  obtain ⟨_, _, _, _, hq⟩ := flattened_renders hr hb hd
  exact hq.head_eq.2.1

lemma exists_definition (hr : Renders index encoding [] [source] [root] placed) {t : String}
    (ht : Required index encoding source root t) : ∃ d ∈ root.definitions, d.typeName = t := by
  have hm := (mem_definitions_typeNames hr).mpr ((mem_allReferences_iff hr).mpr ht)
  exact List.mem_map.mp hm

lemma definition_required (hr : Renders index encoding [] [source] [root] placed) {d : Block}
    (hd : d ∈ root.definitions) : Required index encoding source root d.typeName := by
  apply (mem_allReferences_iff hr).mp
  exact (mem_definitions_typeNames hr).mp (List.mem_map_of_mem hd)

theorem distinctNames_iff {options : Options} {file : ProtoFile} {text : String}
    (h : compile index options file = .ok text) :
    ∃ source root, IsSchema index options file text source root ∧
      (DistinctNames root ↔ ∀ t t', Required index options.encoding source root t →
        Required index options.encoding source root t' → t ≠ t' →
          TypeName.joinSegments (TypeName.segments t) ≠
            TypeName.joinSegments (TypeName.segments t')) := by
  obtain ⟨source, root, hs⟩ := exists_isSchema h
  obtain ⟨placed, hr⟩ := hs.renders
  refine ⟨source, root, hs, ?_⟩
  constructor
  · intro hn t t' ht ht' hne he
    obtain ⟨d, hd, rfl⟩ := exists_definition hr ht
    obtain ⟨d', hd', rfl⟩ := exists_definition hr ht'
    apply hn d hd d' hd' hne
    rw [definition_name hr hd, definition_name hr hd']
    exact TypeName.flattened_eq_iff.mpr he
  · intro hj d hd e he hne hname
    rw [definition_name hr hd, definition_name hr he] at hname
    exact hj _ _ (definition_required hr hd) (definition_required hr he) hne
      (TypeName.flattened_eq_iff.mp hname)

def orderLineFiles : List ProtoFile :=
  [⟨"cart.proto", "shop",
    [⟨"Cart", [⟨"line", 1, .optional, .named .message ".shop.Order.Line"⟩,
      ⟨"old", 2, .optional, .named .message ".shop.OrderLine"⟩], [], []⟩], []⟩,
    ⟨"order.proto", "shop",
      [⟨"Order", [], [⟨"Line", [⟨"amount", 1, .optional, .scalar .int32⟩], [], []⟩], []⟩,
        ⟨"OrderLine", [⟨"text", 1, .optional, .scalar .string⟩], [], []⟩], []⟩]

def orderLineSchema : Block :=
  .message "Cart" ".shop.Cart"
    [⟨.optional, .named .message "ShopOrderLine" ".shop.Order.Line", "line", 1⟩,
      ⟨.optional, .named .message "ShopOrderLine" ".shop.OrderLine", "old", 2⟩]
    []
    [.message "ShopOrderLine" ".shop.Order.Line" [⟨.optional, .scalar .int32, "amount", 1⟩] [] [],
      .message "ShopOrderLine" ".shop.OrderLine" [⟨.optional, .scalar .string, "text", 1⟩] [] []]

theorem distinctNames_iff_orderLine :
    ∃ file ∈ orderLineFiles, ∃ text, compile (.ofFiles orderLineFiles) {} file = .ok text ∧
      ∃ source root, IsSchema (.ofFiles orderLineFiles) {} file text source root ∧
        (DistinctNames root ↔ ∀ t t', Required (.ofFiles orderLineFiles) .binary source root t →
          Required (.ofFiles orderLineFiles) .binary source root t' → t ≠ t' →
            TypeName.joinSegments (TypeName.segments t) ≠
              TypeName.joinSegments (TypeName.segments t')) :=
  ⟨_, List.mem_cons_self, _, rfl, distinctNames_iff rfl⟩

theorem orderLine_not_distinctNames :
    UniqueNames orderLineFiles ∧
      ∃ file ∈ orderLineFiles, ∃ text source,
        compile (.ofFiles orderLineFiles) {} file = .ok text ∧
        IsSchema (.ofFiles orderLineFiles) {} file text source orderLineSchema ∧
        ¬ DistinctNames orderLineSchema := by
  refine ⟨by decide +kernel, _, List.mem_cons_self, _, _, rfl, ⟨_, _, rfl, rfl, rfl, rfl⟩, ?_⟩
  intro h
  have hd : orderLineSchema.definitions = orderLineSchema.flattened := rfl
  rw [DistinctNames, hd] at h
  exact h _ List.mem_cons_self _ (List.mem_cons_of_mem _ List.mem_cons_self) (by decide) rfl

end TopicSchema.Schema
