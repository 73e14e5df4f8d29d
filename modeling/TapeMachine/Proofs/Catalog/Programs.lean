import TapeMachine.Catalog
import TapeMachine.Proofs.Machine.SingleTape
import TapeMachine.Proofs.Specification.Acceptance

/-!
# The programs of the catalog

The specification of an entry is never evaluated as a whole: its token lines are those of its lines,
one by one (`tokenLines_text`). An entry with a valid layout is found under its name, with the
program that the layout denotes (`exists_programNamed`). All machines of the catalog read binary
words, begin in `q0` and accept in `qa`, so what a run from `q0` leads to is what an execution on a
word leads to (`IsBinary.execute_of_takes`).
-/

namespace TapeMachine

namespace Specification

/-- Lines with a line feed behind each of them have the tokens of each of them. -/
theorem runTokenLines_flatMap {lines : List (List Char)}
    (h : ∀ line ∈ lines, ∀ c ∈ line, endsLine c = false) :
    runTokenLines (lines.flatMap (· ++ ['\n'])) =
      (lines.map runTokens).filter fun tokens => !tokens.isEmpty := by
  induction lines with
  | nil => rfl
  | cons line lines ih =>
      obtain ⟨hline, hlines⟩ := List.forall_mem_cons.1 h
      have hbehind : ∀ c, ('\n' :: lines.flatMap (· ++ ['\n'])).head? = some c →
          endsLine c = true := by
        rintro _ ⟨⟩
        rfl
      rw [List.flatMap_cons, List.append_assoc, List.singleton_append,
        runTokenLines_append hline hbehind, runTokenLines_of_afterLineEnd? rfl, ih hlines]
      exact (List.filter_append [runTokens line] _).symm

end Specification

namespace Catalog

open Specification

/-- The tokens of the lines that have any. -/
def Entry.tokenLines (entry : Entry) : List (List String) :=
  ((entry.lines.map fun line => runTokens line.toList).filter fun tokens => !tokens.isEmpty).map
    (·.map String.ofList)

theorem tokenLines_text {entry : Entry}
    (h : ∀ line ∈ entry.lines, ∀ c ∈ line.toList, endsLine c = false) :
    tokenLines entry.text = entry.tokenLines := by
  have htext : entry.text.toList = (entry.lines.map String.toList).flatMap (· ++ ['\n']) := by
    simp only [Entry.text, String.toList_join, List.flatMap_map, String.toList_append]
    rfl
  have hchars : ∀ line ∈ entry.lines.map String.toList, ∀ c ∈ line, endsLine c = false := by
    simpa using h
  rw [Specification.tokenLines, htext, runTokenLines_flatMap hchars, List.map_map]
  rfl

theorem utf8ByteSize_join (texts : List String) :
    (String.join texts).utf8ByteSize = (texts.map String.utf8ByteSize).foldr (· + ·) 0 := by
  induction texts with
  | nil => rfl
  | cons text texts ih =>
      rw [String.join_cons, String.utf8ByteSize_append, ih, List.map_cons, List.foldr_cons]

/-- Looking for a name among the machines is looking among the entries whose specification denotes a
program. -/
theorem find?_eq (name : String) :
    find? name =
      (entries.find? fun entry => entry.item?.any (·.entry.name == name)).bind Entry.item? := by
  rw [find?, items]
  exact List.find?_filterMap

/-- The first entry of a name is found under it, if its specification denotes a program. -/
theorem programNamed_of_entry {name : String} {entry : Entry} {p : Program}
    (hentry : entries.find? (fun entry => entry.name == name) = some entry)
    (hp : Specification.program entry.text = .ok p) : programNamed name = .ok p := by
  have hitem : entry.item? = some ⟨entry, p⟩ := by
    unfold Entry.item?
    rw [hp]
  have hname (other : Entry) (h : other.item?.any (·.entry.name == name) = true) :
      (other.name == name) = true := by
    unfold Entry.item? at h
    split at h
    · exact h
    · cases h
  have hfirst : entries.find? (fun other => other.item?.any (·.entry.name == name)) =
      some entry := by
    obtain ⟨hfound, before, behind, heq, hbefore⟩ := List.find?_eq_some_iff_append.1 hentry
    refine List.find?_eq_some_iff_append.2 ⟨?_, before, behind, heq, fun other hother => ?_⟩
    · rw [hitem]
      exact hfound
    · have hother := hbefore other hother
      cases hany : other.item?.any (·.entry.name == name) with
      | false => rfl
      | true =>
          rw [hname other hany] at hother
          cases hother
  have hfind : find? name = some ⟨entry, p⟩ := by
    rw [find?_eq, hfirst, Option.bind_some, hitem]
  rw [programNamed, hfind, Option.elim_some]

/-- An entry of at most 65536 bytes that has a valid layout is found under its name, with the
program that the layout denotes, and a machine can be made of the program. -/
theorem exists_programNamed {name : String} (entry : Entry) {l : Layout}
    (hentry : entries.find? (fun entry => entry.name == name) = some entry)
    (hsize : (entry.lines.map fun line => (line ++ "\n").utf8ByteSize).foldr (· + ·) 0 ≤ 65536)
    (hlines : (entry.lines.all fun line => line.toList.all fun c => !endsLine c) = true)
    (hlayout : Layout.ofLines? entry.tokenLines = some l) (hvalid : l.Valid) :
    ∃ p, programNamed name = .ok p ∧ l.Denotes p ∧
      ∃ m, Machine.ofProgram p = .ok m ∧ m.program = p := by
  have hbytes : entry.text.utf8ByteSize ≤ 65536 := by
    rwa [Entry.text, utf8ByteSize_join, List.map_map]
  have hchars : ∀ line ∈ entry.lines, ∀ c ∈ line.toList, endsLine c = false := by
    simpa using hlines
  rw [← tokenLines_text hchars] at hlayout
  obtain ⟨p, hp⟩ := exists_program_of_valid hbytes hlayout hvalid
  obtain ⟨l', hlayout', _, hmeans⟩ := exists_layout_of_program hp
  obtain rfl := Option.some.inj (hlayout.symm.trans hlayout')
  obtain ⟨m, hm, hprogram, _⟩ := exists_machine_of_program hp
  exact ⟨p, programNamed_of_entry hentry hp, hmeans, m, hm, hprogram⟩

/-! ## Binary words -/

/-- The symbols of binary words. -/
def IsBit (symbol : Symbol) : Prop := symbol = "0" ∨ symbol = "1"

theorem isBit_of_mem_append {a : Symbol} {word : List Symbol} (ha : IsBit a)
    (hword : ∀ symbol ∈ word, IsBit symbol) : ∀ symbol ∈ word ++ [a], IsBit symbol := by
  intro symbol hsymbol
  rcases List.mem_append.1 hsymbol with hsymbol | hsymbol
  · exact hword symbol hsymbol
  · rwa [List.mem_singleton.1 hsymbol]

/-- The characters of a word of zeros and ones are the symbols of the machine. -/
theorem isBit_of_mem_toList {w : String} (hw : ∀ c ∈ w.toList, c = '0' ∨ c = '1') :
    ∀ symbol ∈ w.toList.map String.singleton, IsBit symbol := by
  intro symbol hsymbol
  obtain ⟨c, hc, rfl⟩ := List.mem_map.1 hsymbol
  rcases hw c hc with rfl | rfl
  · exact .inl rfl
  · exact .inr rfl

/-- The symbols of a text make up the text. -/
theorem join_map_singleton (chars : List Char) :
    String.join (chars.map String.singleton) = String.ofList chars := by
  refine String.toList_inj.1 ?_
  rw [String.toList_join, List.flatMap_map, String.toList_ofList]
  simp only [String.toList_singleton]
  exact List.flatMap_singleton' chars

/-! ## Machines for binary words -/

/-- The tape with a word from a position on. -/
abbrev wordTape (start : Int) (word : List Symbol) (head : Int) : InfiniteTape :=
  .ofWord "_" start word head

/-- A layout for binary words, with `_` as the blank, `q0` as the initial and `qa` as the only
accepting state. -/
structure IsBinary (l : Layout) : Prop where
  inputSymbols : ∀ symbol, IsBit symbol → symbol ∈ l.inputSymbols
  initial : l.initial = ["q0"]
  blank : l.blank = ["_"]
  accepting : l.accepting = ["qa"]

/-- If only `qa` accepts, the other states do not. -/
theorem isAccepting_of_ne {p : Program} (h : ∀ state, p.isAccepting state = decide (state = "qa"))
    {state : String} (hne : state ≠ "qa") : p.isAccepting state = false := by
  rw [h, decide_eq_false hne]

namespace IsBinary

variable {l : Layout} {p : Program}

theorem isAccepting (hl : IsBinary l) (h : l.Denotes p) (state : String) :
    p.isAccepting state = decide (state = "qa") := by
  rw [Bool.eq_iff_iff, p.isAccepting_iff, h.accepting, hl.accepting, decide_eq_true_iff]
  exact List.mem_singleton

theorem blank_eq (hl : IsBinary l) (h : l.Denotes p) : p.blank.getD "" = "_" := by
  rw [h.blank, hl.blank]
  rfl

/-- A run on a word begins in `q0` with the characters of the word on the tape. -/
theorem start_eq (hl : IsBinary l) (h : l.Denotes p) (w : String) :
    (⟨p.initialName, .ofContent w (p.blank.getD "")⟩ : Point) =
      ⟨"q0", wordTape 0 (w.toList.map String.singleton) 0⟩ := by
  have hinitial : p.initialName = "q0" := by
    rw [Program.initialName, h.initial, hl.initial]
    rfl
  rw [hinitial, hl.blank_eq h]
  rfl

theorem isValidInput (hl : IsBinary l) (h : l.Denotes p) {w : String}
    (hw : ∀ c ∈ w.toList, c = '0' ∨ c = '1') : p.isValidInput w = true :=
  h.isValidInput_iff.2 fun symbol hsymbol =>
    hl.inputSymbols symbol (isBit_of_mem_toList hw symbol hsymbol)

/-- Where a run from `q0` on a binary word leads, an execution with a sufficient budget ends. -/
theorem execute_of_takes {m : Machine} (hl : IsBinary l) (h : l.Denotes m.program) {w : String}
    (hw : ∀ c ∈ w.toList, c = '0' ∨ c = '1') {c : Point} {attempts applied budget : Nat}
    {halt : Halt}
    (htakes : m.program.Takes attempts applied
      ⟨"q0", wordTape 0 (w.toList.map String.singleton) 0⟩ c (some halt))
    (hbudget : attempts ≤ budget) :
    ∃ final e, m.execute w budget = .ok (.ofHalt (some halt), final) ∧
      final.execution = some e ∧ e.IsAt m.program c applied (some halt) := by
  rw [← hl.start_eq h] at htakes
  exact Machine.execute_of_takes h.tapeCount (hl.isValidInput h hw) htakes hbudget

end IsBinary

end Catalog

end TapeMachine
