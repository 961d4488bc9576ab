/-
The two texts of a value. What has a text in fault messages has one for users as well: the text of fault messages goes
into all that the other one goes into, and further, into the bodies of functions. Main statement:
`Value.text_of_inspect`.
-/
import SmallLisp.Value.Text

namespace SmallLisp.Value

/-- Whether there is a text. -/
def Writes {α : Type} (x : Except Fault α) : Prop := ∃ a, x = .ok a

namespace Writes

variable {α β : Type}

theorem ok (a : α) : Writes (.ok a : Except Fault α) := ⟨a, rfl⟩

theorem map {x : Except Fault α} (h : Writes x) (f : α → β) : Writes (x.map f) := by
  obtain ⟨a, rfl⟩ := h
  exact ok (f a)

theorem of_map {x : Except Fault α} {f : α → β} (h : Writes (x.map f)) : Writes x := by
  cases x with
  | ok a => exact ok a
  | error fault =>
    obtain ⟨b, hb⟩ := h
    cases hb

theorem bind {x : Except Fault α} {f : α → Except Fault β} (h : Writes x) (hf : ∀ a, Writes (f a)) :
    Writes (x >>= f) := by
  obtain ⟨a, rfl⟩ := h
  exact hf a

theorem of_bind {x : Except Fault α} {f : α → Except Fault β} (h : Writes (x >>= f)) :
    Writes x ∧ ∃ a, Writes (f a) := by
  cases x with
  | ok a => exact ⟨ok a, a, h⟩
  | error fault =>
    obtain ⟨b, hb⟩ := h
    cases hb

end Writes

section Given

variable {readable : Bool} {cell cell' : CellId → Except Fault String}

mutual

theorem textWith_of_inspectWith (hcell : ∀ id, Writes (cell' id) → Writes (cell id)) :
    ∀ v : Value, Writes (inspectWith cell' v) → Writes (textWith readable cell v)
  | .int _ => id
  | .list items _ | .vector items _ => fun h => (textsWith_of_inspectAllWith hcell items h.of_map).map _
  | .map entries _ => fun h => (entryTextsWith_of_inspectEntriesWith hcell entries h.of_map).map _
  | .cell id => hcell id
  | .nil | .bool _ | .float _ | .str _ | .symbol _ | .keyword _ | .closure .. | .primitive .. => fun _ => .ok _

theorem textsWith_of_inspectAllWith (hcell : ∀ id, Writes (cell' id) → Writes (cell id)) (vs : List Value)
    (h : Writes (inspectAllWith cell' vs)) : Writes (textsWith readable cell vs) := by
  cases vs with
  | nil => exact .ok _
  | cons v vs =>
    obtain ⟨hv, _, hrest⟩ := Writes.of_bind h
    exact .bind (textWith_of_inspectWith hcell v hv) fun _ =>
      .bind (textsWith_of_inspectAllWith hcell vs hrest.of_bind.1) fun _ => .ok _

theorem entryTextsWith_of_inspectEntriesWith (hcell : ∀ id, Writes (cell' id) → Writes (cell id))
    (entries : List (Value × Value)) (h : Writes (inspectEntriesWith cell' entries)) :
    Writes (entryTextsWith readable cell entries) := by
  cases entries with
  | nil => exact .ok _
  | cons entry entries =>
    obtain ⟨k, v⟩ := entry
    obtain ⟨hk, _, hrest⟩ := Writes.of_bind h
    obtain ⟨hv, _, hentries⟩ := hrest.of_bind
    exact .bind (textWith_of_inspectWith hcell k hk) fun _ => .bind (textWith_of_inspectWith hcell v hv) fun _ =>
      .bind (entryTextsWith_of_inspectEntriesWith hcell entries hentries.of_bind.1) fun _ => .ok _

end

end Given

/-- A value with a text in fault messages has a text for users. -/
theorem text_of_inspect {cells : Array Value} {v : Value} {shown : String} (h : v.inspect cells = .ok shown)
    (readable : Bool) : ∃ text, v.text readable cells = .ok text := by
  have hcell : ∀ depth id, Writes (cellInspection cells depth id) → Writes (cellText readable cells depth id) := by
    intro depth
    induction depth with
    | zero => rintro id ⟨_, h⟩; cases h
    | succ depth ih => exact fun id h => (textWith_of_inspectWith ih _ h.of_map).map _
  exact textWith_of_inspectWith (hcell _) v ⟨shown, h⟩

end SmallLisp.Value
