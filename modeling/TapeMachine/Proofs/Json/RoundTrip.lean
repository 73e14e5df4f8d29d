import TapeMachine.Json.Codec
import TapeMachine.Proofs.Json.Reading

/-!
# Values that are written and read back

A value is read back from its JSON form as it was, if its counts and positions are in the range of
the format (`codecs_roundTrip`). The types of the format are `Faithful`: the parts of the records
first, then the enumerations, whose values are found by their names (`Faithful.of_names`), then the
records, whose fields are found by theirs (`Faithful.of_record`).
-/

namespace TapeMachine

/-! ## Ranges -/

/-- A count is below 2^64. -/
def IsCount (n : Nat) : Prop := n < UInt64.size

/-- A position is at least -2^63 and below 2^63. -/
def IsPosition (n : Int) : Prop := Int64.minValue.toInt ≤ n ∧ n ≤ Int64.maxValue.toInt

/-- The positions of the snapshot are in range. -/
def TapeSnapshot.InRange (s : TapeSnapshot) : Prop := IsPosition s.start ∧ IsPosition s.head

/-- The count and the positions of the configuration are in range. -/
def Configuration.InRange (c : Configuration) : Prop :=
  IsCount c.step ∧ ∀ tape ∈ c.tapes, tape.InRange

/-- The counts and the positions of the report are in range. -/
def RunReport.InRange (r : RunReport) : Prop :=
  IsCount r.steps ∧ (∀ tape ∈ r.tapes, tape.InRange) ∧ ∀ c ∈ r.trace, c.InRange

instance (n : Nat) : Decidable (IsCount n) := inferInstanceAs (Decidable (_ < _))

instance (n : Int) : Decidable (IsPosition n) := inferInstanceAs (Decidable (_ ∧ _))

instance (s : TapeSnapshot) : Decidable s.InRange := inferInstanceAs (Decidable (_ ∧ _))

instance (c : Configuration) : Decidable c.InRange := inferInstanceAs (Decidable (_ ∧ _))

instance (r : RunReport) : Decidable r.InRange := inferInstanceAs (Decidable (_ ∧ _ ∧ _))

namespace Json

open Codec

/-- The JSON form of a type carries the values for which the predicate holds: they are decoded
from their own form, and no other values are decoded at all. -/
class Faithful (α : Type) [Codec α] (Fits : outParam (α → Prop)) : Prop where
  plain_encode : ∀ a : α, Plain (encode a)
  decode_encode : ∀ a : α, Fits a → decode (encode a) = some a
  fits_of_decode : ∀ (j : Json) (a : α), decode j = some a → Fits a

attribute [simp] Faithful.plain_encode Faithful.decode_encode

/-! ## Parts of records -/

instance : Faithful String fun _ => True where
  plain_encode := .string
  decode_encode _ _ := rfl
  fits_of_decode _ _ _ := trivial

instance : Faithful Bool fun _ => True where
  plain_encode := .bool
  decode_encode _ _ := rfl
  fits_of_decode _ _ _ := trivial

instance : Faithful Nat IsCount where
  plain_encode n := .int n
  decode_encode n h := by
    have range : 0 ≤ (n : Int) ∧ (n : Int) < UInt64.size := ⟨by omega, Int.ofNat_lt.2 h⟩
    exact if_pos range
  fits_of_decode j n h := by
    cases j with
    | int i =>
      obtain ⟨⟨nonneg, small⟩, ⟨⟩⟩ := Option.ite_none_right_eq_some.1 h
      exact (Int.toNat_lt nonneg).2 small
    | _ => cases h

instance : Faithful Int IsPosition where
  plain_encode := .int
  decode_encode _ h := if_pos h
  fits_of_decode j n h := by
    cases j with
    | int i =>
      obtain ⟨range, ⟨⟩⟩ := Option.ite_none_right_eq_some.1 h
      exact range
    | _ => cases h

instance {α : Type} [Codec α] {Fits : α → Prop} [Faithful α Fits] :
    Faithful (List α) fun l => ∀ a ∈ l, Fits a where
  plain_encode l := by
    refine .array fun item mem => ?_
    obtain ⟨a, -, rfl⟩ := List.mem_map.1 mem
    exact Faithful.plain_encode a
  decode_encode l h := by
    show (l.map encode).mapM decode = some l
    induction l with
    | nil => rfl
    | cons a l ih =>
      rw [List.forall_mem_cons] at h
      simp [Faithful.decode_encode a h.1, ih h.2]
  fits_of_decode j l h := by
    cases j with
    | array items =>
      replace h : items.mapM decode = some l := h
      induction items generalizing l with
      | nil =>
        cases h
        simp
      | cons item items ih =>
        simp only [List.mapM_cons, Option.bind_eq_bind, Option.bind_eq_some_iff] at h
        obtain ⟨a, first, l, more, ⟨⟩⟩ := h
        rw [List.forall_mem_cons]
        exact ⟨Faithful.fits_of_decode item a first, ih l more⟩
    | _ => cases h

/-! ## Enumerations -/

/-- Values that are written as their names are found again by them. -/
theorem Faithful.of_names {α : Type} [Codec α] (values : List α) (name : α → String)
    (hencode : ∀ a : α, encode a = text (name a)) (hdecode : ∀ j, decode j = variant? values name j)
    (hfind : ∀ a, values.find? (fun value => name value == name a) = some a) :
    Faithful α fun _ => True where
  plain_encode a := by
    rw [hencode]
    exact .string (name a)
  decode_encode a _ := by
    rw [hencode, hdecode]
    exact hfind a
  fits_of_decode _ _ _ := trivial

instance : Faithful Direction fun _ => True :=
  .of_names [.left, .right, .stay] Direction.name (fun _ => rfl) (fun _ => rfl)
    fun d => by cases d <;> rfl

instance : Faithful Outcome fun _ => True :=
  .of_names [.accepted, .rejected, .stepLimitReached] Outcome.name (fun _ => rfl) (fun _ => rfl)
    fun o => by cases o <;> rfl

instance : Faithful TraceMode fun _ => True :=
  .of_names [.summary, .full] TraceMode.name (fun _ => rfl) (fun _ => rfl)
    fun m => by cases m <;> rfl

/-! ## Records -/

theorem plain_record {members : List (String × Json)} (h : ∀ member ∈ members, Plain member.2) :
    Plain (record members) := by
  refine .object (fun member mem => ?_) fun member mem => ?_
  all_goals obtain ⟨named, listed, rfl⟩ := List.mem_map.1 mem
  · rfl
  · exact h named listed

/-- A name that stands once among the members has one member. -/
theorem filter_name_of_mem {members : List (String × Json)}
    (nodup : (members.map Prod.fst).Nodup) {name : String} {value : Json}
    (mem : (name, value) ∈ members) :
    members.filter (fun member => member.1 == name) = [(name, value)] := by
  induction members with
  | nil => cases mem
  | cons member members ih =>
    rw [List.map_cons, List.nodup_cons] at nodup
    obtain rfl | mem := List.mem_cons.1 mem
    · have others : members.filter (fun member => member.1 == name) = [] := by
        rw [List.filter_eq_nil_iff]
        rintro other later same
        exact nodup.1 (List.mem_map.2 ⟨other, later, beq_iff_eq.1 same⟩)
      simp [others]
    · have other : member.1 ≠ name := by
        rintro rfl
        exact nodup.1 (List.mem_map.2 ⟨_, mem, rfl⟩)
      rw [List.filter_cons_of_neg (by simpa using other), ih nodup.2 mem]

theorem field?_of_mem {members : List (String × Json)} (nodup : (members.map Prod.fst).Nodup)
    {name : String} {value : Json} (mem : (name, value) ∈ members) :
    field? (members.map fun (name, value) => (some name, value)) name = some value := by
  have found := filter_name_of_mem nodup mem
  simp [field?, List.filter_map, Function.comp_def, found]

/-- Fields are found by their names, wherever they stand and whatever stands beside them. -/
theorem fields?_of_subset {fields members : List (String × Json)}
    (nodup : (members.map Prod.fst).Nodup) (h : fields ⊆ members) :
    fields? (fields.map Prod.fst) (record members) = some (fields.map Prod.snd) := by
  have found : (fields.map Prod.fst).mapM
      (field? (members.map fun (name, value) => (some name, value))) =
        some (fields.map Prod.snd) := by
    induction fields with
    | nil => rfl
    | cons field fields ih =>
      rw [List.cons_subset] at h
      simp [field?_of_mem nodup h.1, ih h.2]
  simpa [fields?, record] using found

/-- Records that are written member by member are built again from the values of these members. -/
theorem Faithful.of_record {α : Type} [Codec α] {Fits : α → Prop}
    {members : α → List (String × Json)} {build : List Json → Option α}
    (hencode : ∀ a : α, encode a = record (members a))
    (hdecode : ∀ a j, decode j = (fields? ((members a).map Prod.fst) j).bind build)
    (hnodup : ∀ a, ((members a).map Prod.fst).Nodup)
    (hplain : ∀ a, ∀ member ∈ members a, Plain member.2)
    (hbuild : ∀ a, Fits a → build ((members a).map Prod.snd) = some a)
    (hfits : ∀ values a, build values = some a → Fits a) : Faithful α Fits where
  plain_encode a := by
    rw [hencode]
    exact plain_record (hplain a)
  decode_encode a h := by
    have hfound := fields?_of_subset (hnodup a) (List.Subset.refl (members a))
    rw [hencode, hdecode a, hfound, Option.bind_some]
    exact hbuild a h
  fits_of_decode j a h := by
    rw [hdecode a] at h
    obtain ⟨values, -, hvalues⟩ := Option.bind_eq_some_iff.1 h
    exact hfits values a hvalues

instance : Faithful Rejection fun _ => True :=
  .of_record (fun _ => rfl) (fun _ _ => rfl) (by simp) (by simp) (by simp) fun _ _ _ => trivial

instance : Faithful State fun _ => True :=
  .of_record (fun _ => rfl) (fun _ _ => rfl) (by simp) (by simp) (by simp) fun _ _ _ => trivial

instance : Faithful Transition.Key fun _ => True :=
  .of_record (fun _ => rfl) (fun _ _ => rfl) (by simp) (by simp) (by simp) fun _ _ _ => trivial

instance : Faithful Transition fun _ => True :=
  .of_record (fun _ => rfl) (fun _ _ => rfl) (by simp) (by simp) (by simp) fun _ _ _ => trivial

-- The records with counts and positions need both directions: what is in range is decoded, and what
-- is decoded is in range.

instance : Faithful TapeSnapshot TapeSnapshot.InRange := by
  refine .of_record (fun _ => rfl) (fun _ _ => rfl) (by simp) (by simp)
    (fun s h => ?_) fun values s h => ?_
  · simp [Faithful.decode_encode s.start h.1, Faithful.decode_encode s.head h.2]
  · split at h
    case h_1 cells start head blank =>
      simp only [Option.bind_eq_bind, Option.bind_eq_some_iff] at h
      obtain ⟨_, -, _, hstart, _, hhead, _, -, ⟨⟩⟩ := h
      exact ⟨Faithful.fits_of_decode start _ hstart, Faithful.fits_of_decode head _ hhead⟩
    case h_2 => cases h

instance : Faithful Configuration Configuration.InRange := by
  refine .of_record (fun _ => rfl) (fun _ _ => rfl) (by simp) (by simp)
    (fun c h => ?_) fun values c h => ?_
  · simp [Faithful.decode_encode c.step h.1, Faithful.decode_encode c.tapes h.2]
  · split at h
    case h_1 state step tapes =>
      simp only [Option.bind_eq_bind, Option.bind_eq_some_iff] at h
      obtain ⟨_, -, _, hstep, _, htapes, ⟨⟩⟩ := h
      exact ⟨Faithful.fits_of_decode step _ hstep, Faithful.fits_of_decode tapes _ htapes⟩
    case h_2 => cases h

instance : Faithful RunReport RunReport.InRange := by
  refine .of_record (fun _ => rfl) (fun _ _ => rfl) (by simp) (by simp)
    (fun r h => ?_) fun values r h => ?_
  · simp [Faithful.decode_encode r.steps h.1, Faithful.decode_encode r.tapes h.2.1,
      Faithful.decode_encode r.trace h.2.2]
  · split at h
    case h_1 input outcome steps finalState tapes trace =>
      simp only [Option.bind_eq_bind, Option.bind_eq_some_iff] at h
      obtain ⟨_, -, _, -, _, hsteps, _, -, _, htapes, _, htrace, ⟨⟩⟩ := h
      exact ⟨Faithful.fits_of_decode steps _ hsteps, Faithful.fits_of_decode tapes _ htapes,
        Faithful.fits_of_decode trace _ htrace⟩
    case h_2 => cases h

/-! ## Texts -/

/-- The values for which the predicate holds are decoded from their text, on one line or on several;
and a value that was decoded from any text at all is decoded from its own text again. -/
structure RoundTrips (α : Type) [Codec α] (Fits : α → Prop) : Prop where
  decode_render : ∀ a : α, Fits a → decodeText α (encode a).render = some a
  decode_pretty : ∀ a : α, Fits a → decodeText α (encode a).pretty = some a
  render_again : ∀ (t : String) (a : α),
    decodeText α t = some a → decodeText α (encode a).render = some a
  pretty_again : ∀ (t : String) (a : α),
    decodeText α t = some a → decodeText α (encode a).pretty = some a

theorem Faithful.roundTrips {α : Type} [Codec α] {Fits : α → Prop} [Faithful α Fits] :
    RoundTrips α Fits := by
  have onLine (a : α) (h : Fits a) : decodeText α (encode a).render = some a := by
    rw [decodeText, parse_render (Faithful.plain_encode a), Option.bind_some,
      Faithful.decode_encode a h]
  have onLines (a : α) (h : Fits a) : decodeText α (encode a).pretty = some a := by
    rw [decodeText, parse_pretty (Faithful.plain_encode a), Option.bind_some,
      Faithful.decode_encode a h]
  have read (t : String) (a : α) (h : decodeText α t = some a) : Fits a := by
    obtain ⟨j, -, decoded⟩ := Option.bind_eq_some_iff.1 h
    exact Faithful.fits_of_decode j a decoded
  exact ⟨onLine, onLines, fun t a h => onLine a (read t a h), fun t a h => onLines a (read t a h)⟩

/-- Every value of the format is read back from what is written for it. -/
theorem codecs_roundTrip :
    (∀ r : RunReport, r.InRange → decodeText RunReport r.toJson = some r) ∧
    RoundTrips RunReport RunReport.InRange ∧
    RoundTrips Configuration Configuration.InRange ∧
    RoundTrips TapeSnapshot TapeSnapshot.InRange ∧
    RoundTrips Direction (fun _ => True) ∧
    RoundTrips Outcome (fun _ => True) ∧
    RoundTrips TraceMode (fun _ => True) ∧
    RoundTrips Rejection (fun _ => True) ∧
    RoundTrips Transition (fun _ => True) ∧
    RoundTrips Transition.Key (fun _ => True) ∧
    RoundTrips State (fun _ => True) :=
  ⟨Faithful.roundTrips.decode_pretty, Faithful.roundTrips, Faithful.roundTrips,
    Faithful.roundTrips, Faithful.roundTrips, Faithful.roundTrips, Faithful.roundTrips,
    Faithful.roundTrips, Faithful.roundTrips, Faithful.roundTrips, Faithful.roundTrips⟩

/-- A report with controls and quotes in its texts, and with the last count and positions. -/
def outermost : RunReport where
  input := "\x00\"\\\n\u2028"
  outcome := .rejected
  steps := UInt64.size - 1
  finalState := ""
  tapes := [⟨["/", ""], Int64.minValue.toInt, Int64.maxValue.toInt, "\x7f"⟩]
  trace := [⟨"q", 0, []⟩]

/-- The members of a rejection in another order, with one that is not a field between them. -/
def disordered : Json :=
  record [("symbols", .array [text "\t"]), ("depth", .int (-1)), ("state", text "q")]

theorem codecs_roundTrip_outermost :
    outermost.InRange ∧ decodeText RunReport outermost.toJson = some outermost ∧
    decodeText Rejection disordered.pretty = some ⟨"q", ["\t"]⟩ ∧
    decodeText Rejection (encode (⟨"q", ["\t"]⟩ : Rejection)).render = some ⟨"q", ["\t"]⟩ := by
  have plain : Plain disordered :=
    plain_record (by simp [text, Plain.string, Plain.int, Plain.array])
  have read : decodeText Rejection disordered.pretty = some ⟨"q", ["\t"]⟩ := by
    rw [decodeText, parse_pretty plain]
    rfl
  obtain ⟨report, -, -, -, -, -, -, rejection, -⟩ := codecs_roundTrip
  have range : outermost.InRange := by decide
  exact ⟨range, report outermost range, read, rejection.render_again _ _ read⟩

end Json

end TapeMachine
