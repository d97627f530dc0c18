import MediaViews.Command.Run
import Mathlib

/-! Runs on requests that come one a line. What one line asks for and whether it can be answered does
not matter to the answers to other lines. -/
namespace MediaViews

namespace Lines

def newline : UInt8 := 10

def text (lines : List (List UInt8)) : List UInt8 := lines.flatMap (· ++ [newline])

def chomp (line : List UInt8) : List UInt8 :=
  match line.reverse with
  | 13 :: reversed => reversed.reverse
  | _ => line

def given (lines : List (List UInt8)) (tail : List UInt8) : List (List UInt8) :=
  lines.map chomp ++ if tail.isEmpty then [] else [tail]

def isBlank (line : List UInt8) : Bool :=
  match decode line with
  | .ok text => Text.isBlank text
  | .error _ => false

theorem split_cons_of_ne {b : UInt8} (h : b ≠ newline) (reversed rest : List UInt8) :
    split reversed (b :: rest) = split (b :: reversed) rest := if_neg h

theorem split_newline (reversed rest : List UInt8) :
    split reversed (newline :: rest) = chomp reversed.reverse :: split [] rest := by
  have hend : split reversed (newline :: rest) =
      (match reversed with
        | 13 :: line => line
        | line => line).reverse :: split [] rest := if_pos rfl
  rw [hend, chomp, List.reverse_reverse]
  congr 1
  split
  · rfl
  · rfl

theorem split_append_of_not_mem {line : List UInt8} (h : newline ∉ line)
    (reversed rest : List UInt8) :
    split reversed (line ++ rest) = split (line.reverse ++ reversed) rest := by
  induction line generalizing reversed with
  | nil => rfl
  | cons b line ih =>
    obtain ⟨hb, hline⟩ := List.ne_and_not_mem_of_not_mem_cons h
    rw [List.cons_append, split_cons_of_ne hb.symm, ih hline, List.reverse_cons, List.append_assoc,
      List.singleton_append]

theorem split_append_newline {line : List UInt8} (h : newline ∉ line) (rest : List UInt8) :
    split [] (line ++ newline :: rest) = chomp line :: split [] rest := by
  rw [split_append_of_not_mem h, split_newline, List.append_nil, List.reverse_reverse]

theorem split_of_not_mem {line : List UInt8} (h : newline ∉ line) :
    split [] line = if line.isEmpty then [] else [line] := by
  have hsplit := split_append_of_not_mem h [] []
  rw [List.append_nil, List.append_nil, split, List.isEmpty_reverse, List.reverse_reverse] at hsplit
  exact hsplit

theorem split_text {lines : List (List UInt8)} {tail : List UInt8}
    (hlines : ∀ line ∈ lines, newline ∉ line) (htail : newline ∉ tail) :
    split [] (text lines ++ tail) = given lines tail := by
  induction lines with
  | nil => exact split_of_not_mem htail
  | cons line lines ih =>
    obtain ⟨hline, hlines⟩ := List.forall_mem_cons.1 hlines
    have hfirst : text (line :: lines) ++ tail = line ++ newline :: (text lines ++ tail) := by
      simp [text]
    rw [hfirst, split_append_newline hline, ih hlines, given, given, List.map_cons,
      List.cons_append]

theorem newline_not_mem_chomp {line : List UInt8} (h : newline ∉ line) : newline ∉ chomp line := by
  unfold chomp
  split
  · next reversed hreversed =>
    intro hmem
    refine h (List.mem_reverse.1 ?_)
    rw [hreversed]
    exact List.mem_cons_of_mem _ (List.mem_reverse.1 hmem)
  · exact h

theorem newline_not_mem_of_mem_given {lines : List (List UInt8)} {tail : List UInt8}
    (hlines : ∀ line ∈ lines, newline ∉ line) (htail : newline ∉ tail) :
    ∀ line ∈ given lines tail, newline ∉ line := by
  intro line hline
  rcases List.mem_append.1 hline with hline | hline
  · obtain ⟨ended, hended, rfl⟩ := List.mem_map.1 hline
    exact newline_not_mem_chomp (hlines ended hended)
  · split at hline
    · cases hline
    · rwa [List.mem_singleton.1 hline]

def requests (lines : List (List UInt8)) (tail : List UInt8) : List (List UInt8) :=
  (given lines tail).filter (!isBlank ·)

theorem requests_of_mem {lines : List (List UInt8)} {tail line : List UInt8}
    (h : line ∈ requests lines tail) : requests [] line = [line] := by
  have hline : isBlank line = false := by simpa using (List.mem_filter.1 h).2
  cases line with
  | nil => exact absurd hline (by decide)
  | cons b line => simp [requests, given, hline]

theorem reply?_eq (c : Compiler) (line : List UInt8) :
    reply? c line = if isBlank line then none else some (c.reply (decode line)) := by
  unfold reply? isBlank
  cases decode line with
  | error e => rfl
  | ok text =>
    cases hblank : Text.isBlank text with
    | true => simp [hblank]
    | false => simp [Compiler.reply, hblank]

theorem replies_text {lines : List (List UInt8)} {tail : List UInt8}
    (hlines : ∀ line ∈ lines, newline ∉ line) (htail : newline ∉ tail) (c : Compiler) :
    c.replies (text lines ++ tail) = (requests lines tail).map fun line => c.reply (decode line) := by
  have hreply : reply? c = fun line =>
      ((Option.guard (!isBlank ·) line).map fun line => c.reply (decode line)) := by
    funext line
    rw [reply?_eq, Option.guard]
    cases isBlank line <;> rfl
  rw [Compiler.replies, split_text hlines htail, hreply, requests, ← List.filterMap_eq_filter,
    List.map_filterMap]

end Lines

def Compiler.respond (c : Compiler) (request : List UInt8) : Json :=
  envelope (c.reply (Lines.decode request)).outcome

def Inputs.withStdin (inputs : Inputs) (stdin : List UInt8) : Inputs := { inputs with stdin }

namespace Command

variable {inputs : Inputs} {config : Option String} {datasets : List String} {s : Session}

theorem load_withStdin (stdin : List UInt8) (h : (Session.load inputs config datasets).2 = .ok s) :
    Session.load (inputs.withStdin stdin) config datasets =
      ((Session.load inputs config datasets).1, .ok s) := Prod.ext rfl h

theorem run_start (h : (Session.load inputs config datasets).2 = .ok s)
    {lines : List (List UInt8)} {tail : List UInt8} (hlines : ∀ line ∈ lines, Lines.newline ∉ line)
    (htail : Lines.newline ∉ tail) (stamps : Nat → BuildStamp) :
    ∃ log, (start datasets config).run (inputs.withStdin (Lines.text lines ++ tail)) stamps =
      ⟨true, (Lines.requests lines tail).map s.compiler.respond, log⟩ := by
  have hload := load_withStdin (Lines.text lines ++ tail) h
  have hstdin : (inputs.withStdin (Lines.text lines ++ tail)).stdin = Lines.text lines ++ tail := rfl
  simp only [run, configFile, datasetFiles, hload, replies, failsWithReply, hstdin,
    Lines.replies_text hlines htail, List.map_map]
  exact ⟨_, rfl⟩

theorem run_compile {dataset : String} (h : (Session.load inputs config [dataset]).2 = .ok s)
    (stdin : List UInt8) (stamps : Nat → BuildStamp) :
    ((compile dataset none config).run (inputs.withStdin stdin) stamps).responses =
      [s.compiler.respond stdin] := by
  have hload := load_withStdin stdin h
  simp only [run, configFile, datasetFiles, hload]
  rfl

/-- Requests are answered one by one, in the order of their lines, and blank lines are passed over.
Each is answered as it is alone: by a run on no other line, and by the compilation of one request if
there is one dataset. No line makes the run fail. -/
theorem run_start_one_by_one (h : (Session.load inputs config datasets).2 = .ok s)
    {lines : List (List UInt8)} {tail : List UInt8} (hlines : ∀ line ∈ lines, Lines.newline ∉ line)
    (htail : Lines.newline ∉ tail) (stamps : Nat → BuildStamp) :
    (∃ log, (start datasets config).run (inputs.withStdin (Lines.text lines ++ tail)) stamps =
      ⟨true, (Lines.requests lines tail).map s.compiler.respond, log⟩) ∧
    ∀ line ∈ Lines.requests lines tail,
      ((start datasets config).run (inputs.withStdin line) stamps).responses =
        [s.compiler.respond line] ∧
      ∀ dataset, datasets = [dataset] →
        ((compile dataset none config).run (inputs.withStdin line) stamps).responses =
          [s.compiler.respond line] := by
  refine ⟨run_start h hlines htail stamps, fun line hline => ⟨?_, ?_⟩⟩
  · have hnewline := Lines.newline_not_mem_of_mem_given hlines htail line (List.mem_filter.1 hline).1
    obtain ⟨log, halone⟩ :=
      @run_start inputs config datasets s h [] line nofun hnewline stamps
    rw [Lines.requests_of_mem hline] at halone
    exact congrArg CommandResult.responses halone
  · rintro dataset rfl
    exact run_compile h line stamps

def emptyImages : Inputs where
  file _ := .ok "\x7b\"name\": \"images\", \"media_type\": \"image\"\x7d"
  stdin := []

def unansweredLines : List (List UInt8) := [[0x5b, 0x0d], [0x20], [0xff]]

def wholeView : List UInt8 := "\x7b\"dataset\": \"images\"\x7d".toUTF8.data.toList

theorem isOk_load_emptyImages : (Session.load emptyImages none ["images.json"]).2.isOk := by
  decide +kernel

theorem run_start_one_by_one_unanswered :
    ∃ s log, (Session.load emptyImages none ["images.json"]).2 = .ok s ∧
      (∀ line ∈ unansweredLines, Lines.newline ∉ line) ∧ Lines.newline ∉ wholeView ∧
      (start ["images.json"] none).run
          (emptyImages.withStdin (Lines.text unansweredLines ++ wholeView)) (fun _ => ⟨"build", 0⟩) =
        ⟨true, [[0x5b], [0xff], wholeView].map s.compiler.respond, log⟩ ∧
      wholeView ∈ Lines.requests unansweredLines wholeView ∧
      ((compile "images.json" none none).run (emptyImages.withStdin wholeView)
        (fun _ => ⟨"build", 0⟩)).responses = [s.compiler.respond wholeView] := by
  have hlines : ∀ line ∈ unansweredLines, Lines.newline ∉ line := by decide
  have htail : Lines.newline ∉ wholeView := by decide +kernel
  have hrequests : Lines.requests unansweredLines wholeView = [[0x5b], [0xff], wholeView] := by
    decide +kernel
  have hmem : wholeView ∈ Lines.requests unansweredLines wholeView := by simp [hrequests]
  have hok := isOk_load_emptyImages
  cases hload : (Session.load emptyImages none ["images.json"]).2 with
  | error e =>
    rw [hload] at hok
    cases hok
  | ok s =>
    obtain ⟨⟨log, hrun⟩, halone⟩ :=
      run_start_one_by_one hload hlines htail fun _ => ⟨"build", 0⟩
    rw [hrequests] at hrun
    exact ⟨s, log, rfl, hlines, htail, hrun, hmem, (halone wholeView hmem).2 "images.json" rfl⟩

end Command
end MediaViews
