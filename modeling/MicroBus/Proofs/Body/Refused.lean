import MicroBus.Proofs.Body.Puts
import MicroBus.Proofs.Wire.Stopped

/-!
# Puts that are refused

Octets, words and texts are refused before anything of them is written, so the body stays as it was.
A table is written as its entries come, behind a zero word that is to become its header. When it is
refused, all of that stays in the body, and only a body too long to be finished does not show it.
-/

namespace MicroBus

/-- Whether a table is put. -/
def Put.IsTable : Put → Prop
  | table _ _ => True
  | _ => False

namespace Builder

/-- What a body becomes by puts that are made one after another whatever becomes of each: those that
went through, those that were refused, and the body behind them. -/
inductive Tried : Builder → List Put → List Put → Builder → Prop where
  /-- Nothing is put. -/
  | done (b : Builder) : Tried b [] [] b
  /-- A put goes through. -/
  | accepted {b c d : Builder} {p : Put} {accepted refused : List Put} (put : b.put p = (none, c))
    (rest : Tried c accepted refused d) : Tried b (p :: accepted) refused d
  /-- A put is refused. -/
  | refused {b c d : Builder} {p : Put} {f : Fault} {accepted refused : List Put}
    (put : b.put p = (some f, c)) (rest : Tried c accepted refused d) :
    Tried b accepted (p :: refused) d

variable {b d : Builder} {f : Fault}

/-! ## One put -/

/-- Octets that are refused leave the body as it was. -/
theorem eq_of_putRaw (field : Field) (payload : Bytes)
    (refused : b.putRaw field payload = (some f, d)) : d = b := by
  rw [putRaw] at refused
  cases h : Header.make field.code (4 + payload.length) false with
  | error g =>
    rw [h] at refused
    exact (Prod.mk.inj refused).2.symm
  | ok header =>
    rw [h] at refused
    cases (Prod.mk.inj refused).1

/-- Whatever is refused, unless it is a table, leaves the body as it was. -/
theorem eq_of_put {p : Put} (plain : ¬ p.IsTable) (refused : b.put p = (some f, d)) : d = b := by
  cases p with
  | raw field payload => exact eq_of_putRaw field payload refused
  | word field w => exact eq_of_putRaw field (Bytes.bigEndian 4 w.toNat) refused
  | text field s => exact eq_of_putRaw field (Text.utf8 s ++ [0]) refused
  | table => exact (plain trivial).elim

/-- What stays of entries that are refused: those in front of the first that is refused by itself
and the beginning of that one, or all of them if only their length is refused. -/
inductive Leaves (entries : Entries) : Fault → Bytes → Prop where
  /-- An entry is refused by itself. -/
  | entry {before after : Entries} {e : String × Value} {f : Fault} {part : Bytes}
    (split : sortByName entries = before ++ e :: after)
    (written : ∀ x ∈ before, Value.Encodable x.1 x.2)
    (stops : Wire.Stops (maxDepth + 1) e.1 e.2 f part) :
    Leaves entries f ((before.map fun x => Value.layout x.1 x.2).flatten ++ part)
  /-- The length of them all is refused. -/
  | length (written : ∀ e ∈ entries, Value.Encodable e.1 e.2)
    (long : Header.maxLength < 4 + Value.sizeOfEntries entries) :
    Leaves entries (.overflow .wholeAttribute) (Value.payload (.table entries))

theorem putTable_of_stopped {entries : Entries} {part : Bytes} (field : Field)
    (h : Wire.entriesDraft entries = .stopped part f) :
    b.putTable field entries = (some f, ⟨b.written ++ Bytes.zeroWord ++ part⟩) := by
  rw [putTable, h]
  rfl

theorem putTable_of_long {entries : Entries} {inside : Bytes} (field : Field)
    (h : Wire.entriesDraft entries = .done inside) (long : Header.maxLength < 4 + inside.length) :
    b.putTable field entries =
      (some (.overflow .wholeAttribute), ⟨b.written ++ Bytes.zeroWord ++ inside⟩) := by
  have hmake : Header.make field.code (4 + inside.length) false =
      .error (.overflow .wholeAttribute) := if_pos long
  rw [putTable, h]
  simp only [Draft.done, hmake]

/-- Entries that can be written one by one are written as the payload of their table. -/
theorem entriesDraft_of_encodable {entries : Entries}
    (h : ∀ e ∈ entries, Value.Encodable e.1 e.2) :
    Wire.entriesDraft entries = .done (Value.payload (.table entries)) := by
  rw [Wire.entriesDraft_eq, Value.payload_table]
  exact Wire.draftEach_done fun e he => Value.keeps_iff_encodable.mpr (h e (mem_sortByName.mp he))

/-- A table of which something stays is refused, and it stays behind a zero word. -/
theorem Leaves.putTable_eq {entries : Entries} {left : Bytes} (h : Leaves entries f left)
    (b : Builder) (field : Field) :
    b.putTable field entries = (some f, ⟨b.written ++ Bytes.zeroWord ++ left⟩) := by
  cases h with
  | @entry before after e f part split written stops =>
    apply putTable_of_stopped
    rw [Wire.entriesDraft_eq, split]
    exact Wire.draftEach_stopped (fun x hx => Value.keeps_iff_encodable.mpr (written x hx))
      (Wire.draft_eq_stopped_iff.mpr stops) after
  | length written long =>
    apply putTable_of_long field (entriesDraft_of_encodable written)
    rwa [Value.length_payload, Value.payloadSize]

/-- If a table is refused, an entry of it is refused by itself, or the length of them all. -/
theorem exists_leaves_of_putTable {field : Field} {entries : Entries}
    (h : b.putTable field entries = (some f, d)) : ∃ g left, Leaves entries g left := by
  rcases Wire.keeps_or_stopped (maxDepth + 1) (sortByName entries) with written |
    ⟨before, e, after, part, g, split, written, he⟩
  · have encodable (e : String × Value) (he : e ∈ entries) : Value.Encodable e.1 e.2 :=
      Value.keeps_iff_encodable.mp (written e (mem_sortByName.mpr he))
    by_cases long : Header.maxLength < 4 + Value.sizeOfEntries entries
    · exact ⟨_, _, .length encodable long⟩
    · have put : Client.built (b.putTable field entries) =
          .ok ⟨b.written ++ field.octets (Value.payload (.table entries))⟩ := by
        refine putTable_eq_ok_iff.mpr ⟨Value.payload (.table entries), ?_, ?_, rfl⟩
        · rw [entriesDraft_of_encodable encodable]
          rfl
        · rw [Value.length_payload, Value.payloadSize]
          exact Nat.le_of_not_lt long
      rw [Client.built_eq_ok_iff, h] at put
      cases put
  · exact ⟨g, _, .entry split (fun x hx => Value.keeps_iff_encodable.mp (written x hx))
      (Wire.draft_eq_stopped_iff.mp he)⟩

/-- A table is refused exactly if an entry of it or its length is, and leaves a zero word and what
was written of the entries. -/
theorem putTable_eq_some_iff {field : Field} {entries : Entries} :
    b.putTable field entries = (some f, d) ↔
      ∃ left, Leaves entries f left ∧ d = ⟨b.written ++ Bytes.zeroWord ++ left⟩ := by
  constructor
  · intro h
    obtain ⟨g, left, leaves⟩ := exists_leaves_of_putTable h
    rw [leaves.putTable_eq] at h
    obtain ⟨hf, rfl⟩ := Prod.mk.inj h
    obtain rfl := Option.some.inj hf
    exact ⟨left, leaves, rfl⟩
  · rintro ⟨left, leaves, rfl⟩
    exact leaves.putTable_eq b field

/-- A body is finished with its length in front, unless that is too long. -/
theorem finish_eq (b : Builder) : b.finish =
    if Header.maxLength < 4 + b.written.length then .error (.overflow .container)
    else .ok (Header.encode ⟨0, 4 + b.written.length, false⟩ ++ b.written) := by
  rw [finish, sealContainer, Header.make]
  by_cases long : Header.maxLength < 4 + b.written.length
  · rw [if_pos long, if_pos long]
  · rw [if_neg long, if_neg long]

/-- A body to which something was added is finished as before only if it was too long before. -/
theorem finish_append_iff {added : Bytes} (some_added : added ≠ []) :
    finish ⟨b.written ++ added⟩ = b.finish ↔ Header.maxLength < 4 + b.written.length := by
  have hpos := List.length_pos_iff.mpr some_added
  rw [finish_eq, finish_eq]
  by_cases long : Header.maxLength < 4 + b.written.length
  · have longer : Header.maxLength < 4 + (b.written ++ added).length := by
      rw [List.length_append]
      omega
    rw [if_pos long, if_pos longer]
    exact iff_of_true rfl long
  · rw [if_neg long]
    refine iff_of_false (fun h => ?_) long
    split at h
    · cases h
    · have hl := congrArg List.length (Except.ok.inj h)
      simp only [List.length_append, Header.length_encode] at hl
      omega

/-! ## All puts -/

/-- As long as no table is refused, a body is that of the puts that went through. -/
theorem Tried.putEach_eq {accepted refused : List Put} (h : b.Tried accepted refused d)
    (plain : ∀ p ∈ refused, ¬ p.IsTable) : b.putEach accepted = .ok d := by
  induction h with
  | done => rfl
  | accepted put _ ih => rw [putEach, Client.built_eq_ok_iff.mpr put, ok_bind, ih plain]
  | refused put _ ih =>
    rw [List.forall_mem_cons] at plain
    obtain rfl := eq_of_put plain.1 put
    exact ih plain.2

/-- A put that is refused, after any puts whatever became of them. Octets, a word or a text leave
the body as it was. So as long as no table was refused, the body is finished as before, and if it
can be finished it is parsed into the attributes of the puts that went through. A table leaves a
zero word and what was written of its entries in a body that could still be finished. So behind a
table the body is finished as before exactly if it was too long to be finished at all. -/
theorem refused_put {accepted refused : List Put} {p : Put}
    (reached : empty.Tried accepted refused b) (fails : b.put p = (some f, d)) :
    (¬ p.IsTable → d = b) ∧
    ((∀ q ∈ p :: refused, ¬ q.IsTable) → d.finish = b.finish ∧
      ∀ body, d.finish = .ok body →
        Fields.parse body = .ok ⟨accepted.map Put.toAttribute⟩) ∧
    ∀ field entries, p = .table field entries →
      (4 + b.written.length ≤ Header.maxLength →
        ∃ left, Leaves entries f left ∧ d = ⟨b.written ++ Bytes.zeroWord ++ left⟩) ∧
      (d.finish = b.finish ↔ Header.maxLength < 4 + b.written.length) := by
  refine ⟨fun plain => eq_of_put plain fails, fun plain => ?_, ?_⟩
  · rw [List.forall_mem_cons] at plain
    obtain rfl := eq_of_put plain.1 fails
    refine ⟨rfl, fun body finished => ?_⟩
    exact (parse_of_build (bind_eq_ok_iff.mpr ⟨d, reached.putEach_eq plain.2, finished⟩)).2
  · rintro field entries rfl
    obtain ⟨left, hleft, rfl⟩ := putTable_eq_some_iff.mp fails
    refine ⟨fun _ => ⟨left, hleft, rfl⟩, ?_⟩
    rw [List.append_assoc]
    exact finish_append_iff (by simp [Bytes.zeroWord])

/-- Octets that are too long leave a body with an object as it was. A table is refused for a value
that lies too deep behind another value, and the body is no longer finished as before. -/
theorem refused_put_behind_object :
    let object : Put := .word .objectId 1
    let tooLong : Put := .raw .user (List.replicate 0x1000000 0)
    let deep : Value := Nat.repeat (fun v => .array [v]) 65 .null
    let tooDeep : Put := .table .data [("b", deep), ("a", .int 1)]
    ∃ b c d, empty.Tried [object] [] b ∧ b.put tooLong = (some (.overflow .wholeAttribute), c) ∧
      (∀ body, c.finish = .ok body → Fields.parse body = .ok ⟨[object.toAttribute]⟩) ∧
      empty.Tried [object] [tooLong] c ∧ c.put tooDeep = (some (.tooDeep maxDepth), d) ∧
      d.finish ≠ c.finish := by
  intro object tooLong deep tooDeep
  have first : empty.put object = (none, ⟨[3, 0, 0, 8, 0, 0, 0, 1]⟩) := by cbv
  have second : put ⟨[3, 0, 0, 8, 0, 0, 0, 1]⟩ tooLong =
      (some (.overflow .wholeAttribute), ⟨[3, 0, 0, 8, 0, 0, 0, 1]⟩) := by
    rw [put, putRaw, Header.make, List.length_replicate]
    rfl
  have third : (put ⟨[3, 0, 0, 8, 0, 0, 0, 1]⟩ tooDeep).1 = some (.tooDeep maxDepth) := by cbv
  have before : empty.Tried [object] [] _ := .accepted first (.done _)
  have behind : empty.Tried [object] [tooLong] _ := .accepted first (.refused second (.done _))
  obtain ⟨-, parsed, -⟩ := refused_put before second
  obtain ⟨-, -, tables⟩ := refused_put behind (Prod.ext third rfl)
  refine ⟨_, _, _, before, second, (parsed ?_).2, behind, Prod.ext third rfl, ?_⟩
  · exact List.forall_mem_singleton.mpr id
  · rw [ne_eq, (tables _ _ rfl).2]
    decide

/-! ## What stays is read -/

/-- Values that were written between zero words are held as attributes with names. -/
theorem Holds.named {attributes : List Attribute} (h : b.Holds attributes) {entries : Entries}
    (fit : ∀ e ∈ entries, Value.Encodable e.1 e.2) :
    Holds ⟨b.written ++ Bytes.zeroWord ++
        ((entries.map fun e => Value.layout e.1 e.2).flatten ++ Bytes.zeroWord)⟩
      (attributes ++ Value.attributes entries) := by
  have keeps (e : String × Value) (he : e ∈ entries) := Value.keeps_iff_encodable.mpr (fit e he)
  constructor
  · intro tail rest others hs
    simp only [List.append_assoc]
    exact h.segments (.filler (Value.segments_layouts keeps (.filler hs)))
  · have hmod := h.aligned
    have hentries : (entries.map fun e => Value.layout e.1 e.2).flatten.length =
        Value.sizeOfEntries entries := by
      rw [List.length_flatten, List.map_map, Value.sizeOfEntries_eq_sum]
      exact congrArg List.sum (List.map_congr_left fun e _ => Value.length_layout e.1 e.2)
    have hwords := Value.sizeOfEntries_mod entries
    have hzero : Bytes.zeroWord.length = 4 := rfl
    simp only [List.length_append]
    omega

/-- When a table is refused for the name of an entry, the entries in front of it are read as
attributes of the body, behind those that were put. -/
theorem parse_of_refused_name {accepted refused : List Put} (field : Field)
    {entries before after : Entries} {e : String × Value}
    (reached : empty.Tried accepted refused b) (plain : ∀ q ∈ refused, ¬ q.IsTable)
    (split : sortByName entries = before ++ e :: after)
    (written : ∀ x ∈ before, Value.Encodable x.1 x.2) (long : ¬ Value.NameFits e.1) :
    ∃ d, b.putTable field entries = (some (.overflow .attributeName), d) ∧
      ∀ body, d.finish = .ok body →
        Fields.parse body = .ok ⟨accepted.map Put.toAttribute ++ Value.attributes before⟩ := by
  refine ⟨_, putTable_eq_some_iff.mpr ⟨_, .entry split written (.name long), rfl⟩, ?_⟩
  intro body finished
  obtain ⟨fits, rfl⟩ := (putEach_eq_ok_iff rfl).mp (reached.putEach_eq plain)
  exact ((holds_empty.putEach fits).named written).parse_finish finished

end Builder

end MicroBus
