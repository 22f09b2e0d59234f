import MicroBus.Body.Fields
import MicroBus.Proofs.Wire.Entries

/-!
# The faults of readers

A reader fails because octets are malformed and for no other reason. Readers are put together
from few pieces, and each way of putting them together keeps this.
-/

namespace MicroBus

/-- The faults of malformed octets. -/
def Fault.IsMalformed : Fault → Prop
  | .badLength _ _ => True
  | .truncated _ _ _ => True
  | .badName => True
  | .badPayload _ _ => True
  | .unknownType _ => True
  | .tooDeep _ => True
  | _ => False

/-- A result that is no fault, or the fault of malformed octets. -/
def OnlyMalformed {α : Type} (x : Except Fault α) : Prop := ∀ f, x = .error f → f.IsMalformed

namespace OnlyMalformed

variable {α β : Type}

theorem ok (a : α) : OnlyMalformed (.ok a : Except Fault α) := nofun

theorem error {f : Fault} (h : f.IsMalformed) : OnlyMalformed (.error f : Except Fault α) := by
  rintro g hg
  exact Except.error.inj hg ▸ h

theorem bind {x : Except Fault α} {f : α → Except Fault β} (hx : OnlyMalformed x)
    (hf : ∀ a, OnlyMalformed (f a)) : OnlyMalformed (x >>= f) := by
  intro fault h
  rcases bind_eq_error_iff.mp h with h | ⟨a, -, h⟩
  · exact hx fault h
  · exact hf a fault h

theorem map {x : Except Fault α} (hx : OnlyMalformed x) (f : α → β) : OnlyMalformed (f <$> x) :=
  fun fault h => hx fault (map_eq_error_iff.mp h)

theorem mapM {f : α → Except Fault β} (hf : ∀ a, OnlyMalformed (f a)) (l : List α) :
    OnlyMalformed (l.mapM f) := by
  intro fault h
  obtain ⟨-, a, -, -, ha, -⟩ := mapM_eq_error_iff.mp h
  exact hf a fault ha

end OnlyMalformed

theorem Header.parse_malformed (b : Bytes) : OnlyMalformed (parse b) := by
  unfold parse
  split
  · simp only
    split
    · exact .ok _
    · exact .error trivial
  · exact .error trivial

theorem Attribute.splitName_malformed (inside : Bytes) : OnlyMalformed (splitName inside) := by
  unfold splitName
  split
  · simp only
    split
    · exact .ok _
    · exact .error trivial
  · exact .error trivial

theorem Attribute.parse_malformed (b : Bytes) : OnlyMalformed (parse b) := by
  rw [parse_eq]
  refine .bind (Header.parse_malformed b) fun h => .bind ?_ fun nd => .ok _
  unfold split
  split
  · exact .bind (splitName_malformed _) fun nd => .ok _
  · exact .ok _

/-- The fault of a walk is that of a malformed attribute. -/
theorem walk_malformed {b : Bytes} {f : Fault} (h : (walk b).fault = some f) : f.IsMalformed := by
  refine walkInduction (motive := fun b => (walk b).fault = some f → f.IsMalformed) ?_ ?_ ?_ b h
  · intro b he h
    rw [walk, walkThrough_of_nil he] at h
    cases h
  · intro b g hne hp h
    rw [walk, walkThrough_of_error hne hp] at h
    obtain rfl := Option.some.inj h
    exact Attribute.parse_malformed _ g hp
  · intro b a after hp ih h
    rw [walk, walkThrough_of_ok hp] at h
    exact ih h

theorem OnlyMalformed.decode {α : Type} {read : Attribute → Except Fault α}
    (hr : ∀ a, OnlyMalformed (read a)) (b : Bytes) : OnlyMalformed ((walk b).decode read) := by
  intro f h
  rcases Walk.decode_eq_error h with ⟨a, -, ha⟩ | hw
  · exact hr a f ha
  · exact walk_malformed hw

namespace Wire

theorem leading_malformed (s : Scalar) (data : Bytes) : OnlyMalformed (leading s data) := by
  unfold leading
  split
  · exact .ok _
  · exact .error trivial

theorem leadingInt_malformed (s : Scalar) (data : Bytes) : OnlyMalformed (leadingInt s data) :=
  .bind (leading_malformed s data) fun _ => .ok _

theorem entry_malformed {read : UInt8 → Bytes → Except Fault Value}
    (hr : ∀ code data, OnlyMalformed (read code data)) (a : Attribute) :
    OnlyMalformed (entry read a) :=
  .bind (hr a.id a.data) fun _ => .ok _

theorem value_malformed (levels : Nat) (code : UInt8) (data : Bytes) :
    OnlyMalformed (value levels code data) := by
  induction levels generalizing code data with
  | zero => exact .error trivial
  | succ levels ih =>
    refine .bind ?_ fun t => ?_
    · unfold Tag.ofCode
      split
      · exact .ok _
      · exact .error trivial
    · cases t with
      | unspecified | string => exact .ok _
      | int8 | int16 | int32 | int64 => exact leadingInt_malformed _ data
      | double => exact .bind (leading_malformed _ data) fun _ => .ok _
      | table => exact .map (.decode (entry_malformed ih) data) _
      | array => exact .map (.decode (fun a => ih a.id a.data) data) _

theorem contents_malformed (b : Bytes) : OnlyMalformed (contents b) :=
  .bind (Header.parse_malformed b) fun _ => .ok _

theorem outermost_malformed (code : UInt8) (data : Bytes) : OnlyMalformed (outermost code data) :=
  value_malformed _ code data

end Wire

theorem decodeEntries_malformed (b : Bytes) : OnlyMalformed (decodeEntries b) :=
  .decode (Wire.entry_malformed Wire.outermost_malformed) b

theorem decodeTable_malformed (b : Bytes) : OnlyMalformed (decodeTable b) :=
  .bind (Wire.contents_malformed b) decodeEntries_malformed

theorem decodeArray_malformed (b : Bytes) : OnlyMalformed (decodeArray b) :=
  .bind (Wire.contents_malformed b) fun inside =>
    .decode (fun a => Wire.outermost_malformed a.id a.data) inside

theorem decodeNamed_malformed (b : Bytes) : OnlyMalformed (decodeNamed b) := by
  unfold decodeNamed
  split
  · exact Wire.entry_malformed Wire.outermost_malformed _
  · next f h =>
    have hm := List.mem_of_getElem? ((Cursor.report_start b 0).symm.trans h)
    exact .error (walk_malformed (Walk.error_mem_items.mp hm))
  · exact .error trivial

namespace Fields

theorem parse_malformed (body : Bytes) : OnlyMalformed (parse body) := by
  unfold parse
  split
  · exact .ok _
  · refine .bind (Wire.contents_malformed _) fun inside => .bind ?_ fun _ => .ok _
    unfold Walk.toExcept
    split
    · exact .ok _
    · next f h => exact .error (walk_malformed h)

theorem word?_malformed (fs : Fields) (field : Field) : OnlyMalformed (fs.word? field) := by
  unfold word?
  split
  · exact .ok _
  · exact .bind (Wire.leading_malformed _ _) fun _ => .ok _

theorem entries?_malformed (fs : Fields) (field : Field) : OnlyMalformed (fs.entries? field) := by
  unfold entries?
  split
  · exact .ok _
  · exact .map (decodeEntries_malformed _) _

theorem asEntries_malformed (fs : Fields) : OnlyMalformed fs.asEntries :=
  .mapM (Wire.entry_malformed Wire.outermost_malformed) fs.attributes

end Fields

end MicroBus
