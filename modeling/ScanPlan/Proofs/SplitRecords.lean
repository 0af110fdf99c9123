import ScanPlan.Proofs.ParameterEntries
import ScanPlan.Split.Record

namespace ScanPlan.Proofs.SplitRecords

open ScanPlan.Split
open ScanPlan.Proofs.ParameterEntries

variable {f : Field} {k : Key} {e : Failure} {r : Record}

/-- The key that a field gives: its bytes, or those that its numbers stand for. -/
inductive Gives : Field → Key → Prop where
  | bytes (k : Key) : Gives (.bytes k) k
  | numbers {ns : List Int} {k : Key} (h : ns = k.map fun b => (b.toNat : Int)) :
      Gives (.numbers ns) k

def IsByte (n : Int) : Prop :=
  0 ≤ n ∧ n ≤ 255

instance (n : Int) : Decidable (IsByte n) :=
  inferInstanceAs (Decidable (_ ∧ _))

/-- Why a field gives no key. -/
inductive Refuses : Field → Failure → Prop where
  | null : Refuses .null (.notBytes .null)
  | text (s : String) : Refuses (.text s) (.notBytes .text)
  | numbers {ns : List Int} {n : Int} (hn : n ∈ ns) (h : ¬ IsByte n) :
      Refuses (.numbers ns) .byteOutOfRange

theorem isByte_toNat (b : UInt8) : IsByte b.toNat := by
  have hlt := b.toNat_lt
  constructor
  · omega
  · omega

theorem exists_byte {n : Int} (h : IsByte n) : ∃ b : UInt8, n = b.toNat := by
  obtain ⟨hlow, hhigh⟩ := h
  refine ⟨UInt8.ofNat n.toNat, ?_⟩
  rw [UInt8.toNat_ofNat_of_lt' (by simp; omega)]
  omega

theorem byte?_toNat (b : UInt8) : Field.byte? b.toNat = .ok b := by
  have hlt := b.toNat_lt
  rw [Field.byte?, if_pos (by omega), Int.toNat_natCast, UInt8.ofNat_toNat]

theorem byte?_of_not_isByte {n : Int} (h : ¬ IsByte n) :
    Field.byte? n = .error .byteOutOfRange := by
  unfold IsByte at h
  exact if_neg (by omega)

theorem mapM_byte?_toNat (k : Key) :
    (k.map fun b => (b.toNat : Int)).mapM Field.byte? = .ok k := by
  induction k with
  | nil => rfl
  | cons b k ih =>
      rw [List.map_cons, List.mapM_cons, byte?_toNat, ih]
      rfl

theorem mapM_byte?_of_not_isByte {ns : List Int} {n : Int} (hn : n ∈ ns) (h : ¬ IsByte n) :
    ns.mapM Field.byte? = .error .byteOutOfRange := by
  induction ns with
  | nil => contradiction
  | cons m ns ih =>
      rw [List.mapM_cons]
      by_cases hm : IsByte m
      · obtain ⟨b, rfl⟩ := exists_byte hm
        have hrest : n ∈ ns := (List.mem_cons.mp hn).resolve_left fun heq => h (heq ▸ hm)
        rw [byte?_toNat, ih hrest]
        rfl
      · rw [byte?_of_not_isByte hm]
        rfl

theorem bytes_or_not_isByte (ns : List Int) :
    (∃ k : Key, ns = k.map fun b => (b.toNat : Int)) ∨ ∃ n ∈ ns, ¬ IsByte n := by
  induction ns with
  | nil => exact .inl ⟨[], rfl⟩
  | cons n ns ih =>
      by_cases hn : IsByte n
      · obtain ⟨b, rfl⟩ := exists_byte hn
        rcases ih with ⟨k, rfl⟩ | ⟨m, hm, h⟩
        · exact .inl ⟨b :: k, rfl⟩
        · exact .inr ⟨m, List.mem_cons_of_mem _ hm, h⟩
      · exact .inr ⟨n, List.mem_cons_self, hn⟩

theorem Gives.key? (h : Gives f k) : f.key? = .ok k := by
  cases h with
  | bytes => rfl
  | numbers h =>
      rw [h]
      exact mapM_byte?_toNat k

theorem Refuses.key? (h : Refuses f e) : f.key? = .error e := by
  cases h with
  | null => rfl
  | text s => rfl
  | numbers hn h => exact mapM_byte?_of_not_isByte hn h

theorem gives_or_refuses (f : Field) : (∃ k, Gives f k) ∨ ∃ e, Refuses f e := by
  cases f with
  | null => exact .inr ⟨_, .null⟩
  | text s => exact .inr ⟨_, .text s⟩
  | bytes k => exact .inl ⟨k, .bytes k⟩
  | numbers ns =>
      rcases bytes_or_not_isByte ns with ⟨k, hk⟩ | ⟨n, hn, h⟩
      · exact .inl ⟨k, .numbers hk⟩
      · exact .inr ⟨_, .numbers hn h⟩

/-- The end of keys that a field gives, where a missing field and null give none. -/
inductive GivesEnd : Option Field → Option Key → Prop where
  | missing : GivesEnd none none
  | null : GivesEnd (some .null) none
  | key {f : Field} {k : Key} (h : Gives f k) : GivesEnd (some f) (some k)

theorem givesEnd_ofEnd (stop : Option Key) : GivesEnd (some (.ofEnd stop)) stop := by
  cases stop with
  | none => exact .null
  | some k => exact .key (.bytes k)

theorem end?_some (h : f ≠ .null) : Field.end? (some f) = f.key?.map some := by
  cases f with
  | null => contradiction
  | text s => rfl
  | bytes k => rfl
  | numbers ns => rfl

theorem Gives.ne_null (h : Gives f k) : f ≠ .null := by
  rintro rfl
  cases h

theorem GivesEnd.end? {field : Option Field} {stop : Option Key} (h : GivesEnd field stop) :
    Field.end? field = .ok stop := by
  cases h with
  | missing => rfl
  | null => rfl
  | key h =>
      rw [end?_some h.ne_null, h.key?]
      rfl

theorem givesEnd_or_refuses (field : Option Field) : (∃ stop, GivesEnd field stop) ∨
    ∃ f e, field = some f ∧ f ≠ .null ∧ Refuses f e := by
  cases field with
  | none => exact .inl ⟨none, .missing⟩
  | some f =>
      by_cases hnull : f = .null
      · rw [hnull]
        exact .inl ⟨none, .null⟩
      · rcases gives_or_refuses f with ⟨k, hk⟩ | ⟨e, he⟩
        · exact .inl ⟨some k, .key hk⟩
        · exact .inr ⟨f, e, rfl, hnull, he⟩

/-- How reading a record as a split ends. -/
inductive Reading (r : Record) : Except Failure Split → Prop where
  | noPartitionSet (hset : r.get? "partition_set_id" = none) :
      Reading r (.error (.missingField "partition_set_id"))
  | noStart {p : Field} (hset : r.get? "partition_set_id" = some p)
      (hstart : r.get? "start" = none) : Reading r (.error (.missingField "start"))
  | badStart {p f : Field} {e : Failure} (hset : r.get? "partition_set_id" = some p)
      (hstart : r.get? "start" = some f) (h : Refuses f e) : Reading r (.error e)
  | badEnd {p f g : Field} {k : Key} {e : Failure}
      (hset : r.get? "partition_set_id" = some p) (hstart : r.get? "start" = some f)
      (hk : Gives f k) (hstop : r.get? "end" = some g) (hne : g ≠ .null) (h : Refuses g e) :
      Reading r (.error e)
  | read {p f : Field} {k : Key} {stop : Option Key}
      (hset : r.get? "partition_set_id" = some p) (hstart : r.get? "start" = some f)
      (hk : Gives f k) (hstop : GivesEnd (r.get? "end") stop) :
      Reading r (.ok ⟨(r.get? "host").bind Field.text?, p.text?, ⟨k, stop⟩⟩)

theorem get_of_get? {name : String} (h : r.get? name = some f) : r.get name = .ok f := by
  rw [Record.get, h]

theorem ofRecord?_eq_bind {p : Field} (hset : r.get? "partition_set_id" = some p)
    (hstart : r.get? "start" = some f) :
    ofRecord? r = f.key?.bind fun k => (Field.end? (r.get? "end")).bind fun stop =>
      .ok ⟨(r.get? "host").bind Field.text?, p.text?, ⟨k, stop⟩⟩ := by
  rw [ofRecord?, get_of_get? hset, get_of_get? hstart]
  rfl

theorem Reading.eq {result : Except Failure Split} (h : Reading r result) :
    ofRecord? r = result := by
  cases h with
  | noPartitionSet hset =>
      rw [ofRecord?, Record.get, hset]
      rfl
  | noStart hset hstart =>
      rw [ofRecord?, get_of_get? hset, Record.get, hstart]
      rfl
  | badStart hset hstart h =>
      rw [ofRecord?_eq_bind hset hstart, h.key?]
      rfl
  | badEnd hset hstart hk hstop hne h =>
      rw [ofRecord?_eq_bind hset hstart, hk.key?, hstop, end?_some hne, h.key?]
      rfl
  | read hset hstart hk hstop =>
      rw [ofRecord?_eq_bind hset hstart, hk.key?, hstop.end?]
      rfl

theorem exists_reading (r : Record) : ∃ result, Reading r result := by
  cases hset : r.get? "partition_set_id" with
  | none => exact ⟨_, .noPartitionSet hset⟩
  | some p =>
      cases hstart : r.get? "start" with
      | none => exact ⟨_, .noStart hset hstart⟩
      | some f =>
          rcases gives_or_refuses f with ⟨k, hk⟩ | ⟨e, he⟩
          · rcases givesEnd_or_refuses (r.get? "end") with ⟨stop, hstop⟩ | ⟨g, e, hg, hne, he⟩
            · exact ⟨_, .read hset hstart hk hstop⟩
            · exact ⟨_, .badEnd hset hstart hk hg hne he⟩
          · exact ⟨_, .badStart hset hstart he⟩

theorem ofRecord?_eq_iff {result : Except Failure Split} :
    ofRecord? r = result ↔ Reading r result := by
  constructor
  · rintro rfl
    obtain ⟨result, h⟩ := exists_reading r
    rwa [h.eq]
  · exact Reading.eq

theorem text?_ofText? (s : Option String) : (Field.ofText? s).text? = s := by
  cases s with
  | none => rfl
  | some s => rfl

theorem ofRecord?_toRecord (s : Split) : ofRecord? s.toRecord = .ok s := by
  have hhost : s.toRecord.get? "host" = some (.ofText? s.host) := rfl
  have hread : Reading s.toRecord _ :=
    .read rfl rfl (.bytes s.range.start) (givesEnd_ofEnd s.range.stop)
  rw [hread.eq, hhost, Option.bind_some, text?_ofText?, text?_ofText?]

def fieldNames : List String :=
  ["host", "partition_set_id", "start", "end"]

theorem lookup_filter_mem {names : List String} {name : String} (h : name ∈ names) (r : Record) :
    (r.filter fun e => decide (e.1 ∈ names)).lookup name = r.lookup name := by
  induction r with
  | nil => rfl
  | cons e r ih =>
      obtain ⟨other, f⟩ := e
      rw [lookup_cons_eq_ite]
      by_cases hother : other ∈ names
      · rw [List.filter_cons, if_pos (decide_eq_true hother), lookup_cons_eq_ite, ih]
      · have hne : name ≠ other := fun heq => hother (heq ▸ h)
        rw [List.filter_cons, if_neg (by simpa using hother), if_neg hne, ih]

theorem get?_filter_mem {names : List String} {name : String} (h : name ∈ names) (r : Record) :
    Record.get? (r.filter fun e => decide (e.1 ∈ names)) name = r.get? name := by
  rw [Record.get?, ← List.filter_reverse]
  exact lookup_filter_mem h r.reverse

theorem ofRecord?_congr {r r' : Record} (h : ∀ name ∈ fieldNames, r.get? name = r'.get? name) :
    ofRecord? r = ofRecord? r' := by
  have hhost := h "host" (by decide)
  have hset := h "partition_set_id" (by decide)
  have hstart := h "start" (by decide)
  have hstop := h "end" (by decide)
  simp only [ofRecord?, Record.get, hhost, hset, hstart, hstop]

inductive IsBytes : Field → Prop where
  | bytes (k : Key) : IsBytes (.bytes k)
  | numbers (ns : List Int) : IsBytes (.numbers ns)

/-- The start and the end of a record, as far as they are there, hold bytes or numbers. The end
can also be null. -/
structure HasBytes (r : Record) : Prop where
  start : ∀ f, r.get? "start" = some f → IsBytes f
  stop : ∀ f, r.get? "end" = some f → f ≠ .null → IsBytes f

def InRange (f : Field) : Prop :=
  ∀ ns, f = .numbers ns → ∀ n ∈ ns, IsByte n

theorem Gives.inRange (h : Gives f k) : InRange f := by
  rintro ns rfl n hn
  obtain _ | h := h
  rw [h] at hn
  obtain ⟨b, -, rfl⟩ := List.mem_map.mp hn
  exact isByte_toNat b

theorem exists_gives (hf : IsBytes f) (h : InRange f) : ∃ k, Gives f k := by
  rcases gives_or_refuses f with hk | ⟨e, he⟩
  · exact hk
  · cases he with
    | null => cases hf
    | text s => cases hf
    | numbers hn hbyte => exact absurd (h _ rfl _ hn) hbyte

/-- What a record of bytes and numbers needs to give a split. -/
structure Complete (r : Record) : Prop where
  partitionSet : ∃ p, r.get? "partition_set_id" = some p
  start : ∃ f, r.get? "start" = some f ∧ InRange f
  stop : ∀ f, r.get? "end" = some f → InRange f

theorem Reading.complete {s : Split} (h : Reading r (.ok s)) : Complete r := by
  obtain - | - | - | - | ⟨hset, hstart, hk, hstop⟩ := h
  refine ⟨⟨_, hset⟩, ⟨_, hstart, hk.inRange⟩, ?_⟩
  intro f hf
  rw [hf] at hstop
  obtain - | - | h := hstop
  · nofun
  · exact h.inRange

theorem exists_givesEnd (hbytes : HasBytes r) (h : Complete r) :
    ∃ stop, GivesEnd (r.get? "end") stop := by
  rcases givesEnd_or_refuses (r.get? "end") with hstop | ⟨f, e, hf, hne, he⟩
  · exact hstop
  · obtain ⟨k, hk⟩ := exists_gives (hbytes.stop f hf hne) (h.stop f hf)
    rw [hf]
    exact ⟨some k, .key hk⟩

theorem exists_ofRecord?_iff (hbytes : HasBytes r) :
    (∃ s, ofRecord? r = .ok s) ↔ Complete r := by
  constructor
  · rintro ⟨s, h⟩
    exact (ofRecord?_eq_iff.mp h).complete
  · intro h
    obtain ⟨p, hset⟩ := h.partitionSet
    obtain ⟨f, hstart, hrange⟩ := h.start
    obtain ⟨k, hk⟩ := exists_gives (hbytes.start f hstart) hrange
    obtain ⟨stop, hstop⟩ := exists_givesEnd hbytes h
    exact ⟨_, (Reading.read hset hstart hk hstop).eq⟩

theorem GivesEnd.unique {field : Option Field} {stop stop' : Option Key}
    (h : GivesEnd field stop) (h' : GivesEnd field stop') : stop = stop' :=
  Except.ok.inj (h.end?.symm.trans h'.end?)

theorem stop_eq_iff {s : Split} (h : ofRecord? r = .ok s) (stop : Option Key) :
    s.range.stop = stop ↔ GivesEnd (r.get? "end") stop := by
  have hread := ofRecord?_eq_iff.mp h
  obtain - | - | - | - | ⟨-, -, -, hstop⟩ := hread
  constructor
  · rintro rfl
    exact hstop
  · exact hstop.unique

theorem givesEnd_none_iff {field : Option Field} :
    GivesEnd field none ↔ field = none ∨ field = some .null := by
  constructor
  · rintro (_ | _)
    · exact .inl rfl
    · exact .inr rfl
  · rintro (rfl | rfl)
    · exact .missing
    · exact .null

theorem givesEnd_nil_iff {field : Option Field} :
    GivesEnd field (some []) ↔ field = some (.bytes []) ∨ field = some (.numbers []) := by
  constructor
  · rintro (_ | _ | (_ | h))
    · exact .inl rfl
    · exact .inr (congrArg (some ∘ Field.numbers) h)
  · rintro (rfl | rfl)
    · exact .key (.bytes [])
    · exact .key (.numbers rfl)

/-- What holds of reading a record. -/
structure RecordReading (r : Record) : Prop where
  outcome_iff : ∀ result, ofRecord? r = result ↔ Reading r result
  succeeds_iff : HasBytes r → ((∃ s, ofRecord? r = .ok s) ↔ Complete r)
  unbounded_iff : ∀ s, ofRecord? r = .ok s →
    (s.range.stop = none ↔ r.get? "end" = none ∨ r.get? "end" = some .null)
  emptyEnd_iff : ∀ s, ofRecord? r = .ok s →
    (s.range.stop = some [] ↔
      r.get? "end" = some (.bytes []) ∨ r.get? "end" = some (.numbers []))
  others_ignored : ofRecord? (r.filter fun e => decide (e.1 ∈ fieldNames)) = ofRecord? r
  again : ∀ s, ofRecord? r = .ok s → ofRecord? s.toRecord = .ok s

theorem recordReading (r : Record) : RecordReading r := by
  constructor
  case outcome_iff => exact fun result => ofRecord?_eq_iff
  case succeeds_iff => exact exists_ofRecord?_iff
  case unbounded_iff => exact fun s h => (stop_eq_iff h none).trans givesEnd_none_iff
  case emptyEnd_iff => exact fun s h => (stop_eq_iff h (some [])).trans givesEnd_nil_iff
  case others_ignored => exact ofRecord?_congr fun name h => get?_filter_mem h r
  case again => exact fun s _ => ofRecord?_toRecord s

/-- Every split is read back as it was written, and reading any record ends in the one way that
its fields say. -/
theorem splits_read : (∀ s : Split, ofRecord? s.toRecord = .ok s) ∧ ∀ r, RecordReading r :=
  ⟨ofRecord?_toRecord, recordReading⟩

def numberedRecord : Record :=
  [("more", .text "x"), ("partition_set_id", .text "c"), ("start", .numbers [1, 255]),
    ("end", .numbers [])]

theorem splits_read_numbers :
    ofRecord? numberedRecord = .ok ⟨none, some "c", ⟨[0x01, 0xFF], some []⟩⟩ ∧
      (∃ s, ofRecord? numberedRecord = .ok s) ∧
      (¬ ∃ s, ofRecord? [("partition_set_id", .null), ("start", .numbers [0, 256])] = .ok s) ∧
      ofRecord? [("start", .numbers [256])] = .error (.missingField "partition_set_id") := by
  obtain ⟨-, hreading⟩ := splits_read
  have hbytes : HasBytes numberedRecord := by
    constructor
    · rintro _ ⟨⟩
      exact .numbers _
    · rintro _ ⟨⟩ -
      exact .numbers _
  have hcomplete : Complete numberedRecord := by
    refine ⟨⟨_, rfl⟩, ⟨_, rfl, ?_⟩, ?_⟩
    · rintro _ ⟨⟩
      decide
    · rintro _ ⟨⟩ _ ⟨⟩
      decide
  have hbytes' : HasBytes [("partition_set_id", .null), ("start", .numbers [0, 256])] := by
    constructor
    · rintro _ ⟨⟩
      exact .numbers _
    · nofun
  refine ⟨?_, ((hreading _).succeeds_iff hbytes).mpr hcomplete, ?_, ?_⟩
  · have hset : numberedRecord.get? "partition_set_id" = some (.text "c") := rfl
    have hstart : Gives (.numbers [1, 255]) [0x01, 0xFF] := .numbers rfl
    have hstop : GivesEnd (numberedRecord.get? "end") (some []) := .key (.numbers rfl)
    exact ((hreading _).outcome_iff _).mpr (.read hset rfl hstart hstop)
  · rw [(hreading _).succeeds_iff hbytes']
    rintro ⟨-, ⟨_, ⟨⟩, hrange⟩, -⟩
    exact absurd (hrange _ rfl 256 (by decide)).2 (by decide)
  · exact ((hreading _).outcome_iff _).mpr (.noPartitionSet rfl)

end ScanPlan.Proofs.SplitRecords
