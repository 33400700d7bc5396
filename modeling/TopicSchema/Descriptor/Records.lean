import TopicSchema.Descriptor
import TopicSchema.Entry

/-! Descriptors and the records that hold them. Of several values of a field that holds one, the
last counts. -/

namespace TopicSchema

def Code.entry (number : Nat) : Code → Entry
  | .number n => .integer number n
  | .word s => .text number s

namespace FieldDescriptor

def add (f : FieldDescriptor) : Entry → FieldDescriptor
  | .text 1 s => { f with name := s }
  | .integer 3 n => { f with number := n }
  | .integer 4 n => { f with label := some (.number n) }
  | .text 4 s => { f with label := some (.word s) }
  | .integer 5 n => { f with type := some (.number n) }
  | .text 5 s => { f with type := some (.word s) }
  | .text 6 s => { f with typeName := s }
  | _ => f

def ofEntries (entries : List Entry) : FieldDescriptor :=
  entries.foldl add {}

def entries (f : FieldDescriptor) : List Entry :=
  f.name.toList.map (.text 1) ++ f.number.toList.map (.integer 3)
    ++ f.label.toList.map (Code.entry 4) ++ f.type.toList.map (Code.entry 5)
    ++ f.typeName.toList.map (.text 6)

theorem ofEntries_entries (f : FieldDescriptor) : ofEntries f.entries = f := by
  obtain ⟨name, number, label, type, typeName⟩ := f
  cases name <;> cases number <;> rcases label with _ | ⟨_⟩ | ⟨_⟩ <;>
    rcases type with _ | ⟨_⟩ | ⟨_⟩ <;> cases typeName <;> rfl

end FieldDescriptor

namespace ValueDescriptor

def add (v : ValueDescriptor) : Entry → ValueDescriptor
  | .text 1 s => { v with name := s }
  | .integer 2 n => { v with number := n }
  | _ => v

def ofEntries (entries : List Entry) : ValueDescriptor :=
  entries.foldl add {}

def entries (v : ValueDescriptor) : List Entry :=
  v.name.toList.map (.text 1) ++ v.number.toList.map (.integer 2)

theorem ofEntries_entries (v : ValueDescriptor) : ofEntries v.entries = v := by
  obtain ⟨name, number⟩ := v
  cases name <;> cases number <;> rfl

end ValueDescriptor

namespace EnumDescriptor

def add (e : EnumDescriptor) : Entry → EnumDescriptor
  | .text 1 s => { e with name := s }
  | .record 2 entries => { e with values := e.values ++ [.ofEntries entries] }
  | _ => e

def ofEntries (entries : List Entry) : EnumDescriptor :=
  entries.foldl add {}

def entries (e : EnumDescriptor) : List Entry :=
  e.name.toList.map (.text 1) ++ e.values.map fun v => .record 2 v.entries

theorem foldl_add_values (e : EnumDescriptor) (values : List ValueDescriptor) :
    (values.map fun v => Entry.record 2 v.entries).foldl add e =
      { e with values := e.values ++ values } := by
  induction values generalizing e with
  | nil => simp
  | cons v values ih => simp [add, ih, ValueDescriptor.ofEntries_entries]

theorem ofEntries_entries (e : EnumDescriptor) : ofEntries e.entries = e := by
  obtain ⟨name, values⟩ := e
  cases name <;> simp [ofEntries, entries, foldl_add_values, add]

end EnumDescriptor

namespace MessageDescriptor

mutual

def add (m : MessageDescriptor) : Entry → MessageDescriptor
  | .text 1 s => { m with name := s }
  | .record 2 entries => { m with fields := m.fields ++ [.ofEntries entries] }
  | .record 3 entries => { m with messages := m.messages ++ [addAll {} entries] }
  | .record 4 entries => { m with enumerations := m.enumerations ++ [.ofEntries entries] }
  | _ => m

def addAll (m : MessageDescriptor) : List Entry → MessageDescriptor
  | [] => m
  | e :: es => addAll (m.add e) es

end

def ofEntries (entries : List Entry) : MessageDescriptor :=
  addAll {} entries

mutual

def entries : MessageDescriptor → List Entry
  | ⟨name, fields, messages, enumerations⟩ =>
    name.toList.map (.text 1) ++ fields.map (fun f => .record 2 f.entries)
      ++ nestedEntries messages ++ enumerations.map (fun e => .record 4 e.entries)

def nestedEntries : List MessageDescriptor → List Entry
  | [] => []
  | m :: ms => .record 3 m.entries :: nestedEntries ms

end

theorem addAll_append (m : MessageDescriptor) (xs ys : List Entry) :
    addAll m (xs ++ ys) = addAll (addAll m xs) ys := by
  induction xs generalizing m with
  | nil => rfl
  | cons x xs ih => exact ih (m.add x)

theorem addAll_fields (m : MessageDescriptor) (fields : List FieldDescriptor) :
    addAll m (fields.map fun f => .record 2 f.entries) =
      { m with fields := m.fields ++ fields } := by
  induction fields generalizing m with
  | nil => cases m; simp [addAll]
  | cons f fields ih => simp [addAll, add, ih, FieldDescriptor.ofEntries_entries]

theorem addAll_enumerations (m : MessageDescriptor) (enumerations : List EnumDescriptor) :
    addAll m (enumerations.map fun e => .record 4 e.entries) =
      { m with enumerations := m.enumerations ++ enumerations } := by
  induction enumerations generalizing m with
  | nil => cases m; simp [addAll]
  | cons e enumerations ih => simp [addAll, add, ih, EnumDescriptor.ofEntries_entries]

mutual

theorem ofEntries_entries : ∀ m : MessageDescriptor, ofEntries m.entries = m
  | ⟨name, fields, messages, enumerations⟩ => by
    cases name <;>
      simp [ofEntries, entries, addAll_append, addAll, add, addAll_fields, addAll_nestedEntries,
        addAll_enumerations]

theorem addAll_nestedEntries :
    ∀ (messages : List MessageDescriptor) (m : MessageDescriptor),
      addAll m (nestedEntries messages) = { m with messages := m.messages ++ messages }
  | [], m => by cases m; simp [nestedEntries, addAll]
  | n :: ns, m => by
    have head : addAll {} n.entries = n := ofEntries_entries n
    simp [nestedEntries, addAll, add, head, addAll_nestedEntries ns]

end

end MessageDescriptor

namespace FileDescriptor

def add (f : FileDescriptor) : Entry → FileDescriptor
  | .text 1 s => { f with name := s }
  | .text 2 s => { f with package := s }
  | .record 4 entries => { f with messages := f.messages ++ [.ofEntries entries] }
  | .record 5 entries => { f with enumerations := f.enumerations ++ [.ofEntries entries] }
  | _ => f

def ofEntries (entries : List Entry) : FileDescriptor :=
  entries.foldl add {}

def entries (f : FileDescriptor) : List Entry :=
  f.name.toList.map (.text 1) ++ f.package.toList.map (.text 2)
    ++ f.messages.map (fun m => .record 4 m.entries)
    ++ f.enumerations.map (fun e => .record 5 e.entries)

theorem foldl_add_messages (f : FileDescriptor) (messages : List MessageDescriptor) :
    (messages.map fun m => Entry.record 4 m.entries).foldl add f =
      { f with messages := f.messages ++ messages } := by
  induction messages generalizing f with
  | nil => simp
  | cons m messages ih => simp [add, ih, MessageDescriptor.ofEntries_entries]

theorem foldl_add_enumerations (f : FileDescriptor) (enumerations : List EnumDescriptor) :
    (enumerations.map fun e => Entry.record 5 e.entries).foldl add f =
      { f with enumerations := f.enumerations ++ enumerations } := by
  induction enumerations generalizing f with
  | nil => simp
  | cons e enumerations ih => simp [add, ih, EnumDescriptor.ofEntries_entries]

theorem ofEntries_entries (f : FileDescriptor) : ofEntries f.entries = f := by
  obtain ⟨name, package, messages, enumerations⟩ := f
  cases name <;> cases package <;>
    simp [ofEntries, entries, List.foldl_append, add, foldl_add_messages, foldl_add_enumerations]

end FileDescriptor

end TopicSchema
