import DemandPaging.Config
import Mathlib.Data.List.Induction
import Mathlib.Data.List.TakeWhile
import Mathlib.Logic.Relation

/-!
# What a configuration text means

A text is read line by line, each line on top of what went before, and reading ends at the first
line that makes no sense.  What comes of it does not depend on that order: every line has to make
sense by itself, and each setting is what the last line says that names it.

* `MachineConfig.Sensible` — a line makes sense by itself.
* `MachineConfig.described` — the machine that the last line for each key describes.
* `MachineConfig.applyLines_eq_ok`, `MachineConfig.applyLines_eq_error` — reading some lines.
* `MachineConfig.Edit` — changes of a text that do not change what it says.
* `MachineConfig.SameMeaning` — what two texts agree on if one is an edit of the other.
* `MachineConfig.parse_describes` — reading a text gives the machine that it describes, if there is
  one, and edits make no difference.
-/

namespace DemandPaging

/-! ## Trimming -/

namespace Text

variable {cs ds key value before after : List Char}

/-- Are all characters blank? -/
def Blank (cs : List Char) : Prop := ∀ c ∈ cs, isBlank c = true

/-- A text without the blanks at its end. -/
def trimEnd (cs : List Char) : List Char := (trimStart cs.reverse).reverse

theorem trim_eq_trimEnd (cs : List Char) : trim cs = trimEnd (trimStart cs) := rfl

theorem trimStart_append_of_blank (h : Blank cs) (ds : List Char) :
    trimStart (cs ++ ds) = trimStart ds :=
  List.dropWhile_append_of_pos h

theorem trimEnd_append_of_blank (h : Blank ds) (cs : List Char) :
    trimEnd (cs ++ ds) = trimEnd cs := by
  unfold trimEnd
  rw [List.reverse_append, trimStart_append_of_blank fun c hc => h c (List.mem_reverse.1 hc)]

/-- What follows a text that is not all blank is not touched by trimming the start of it. -/
theorem trimStart_append_of_not_blank (h : ¬ Blank cs) (ds : List Char) :
    trimStart (cs ++ ds) = trimStart cs ++ ds := by
  have hne : trimStart cs ≠ [] := fun hnil => h (trimStart_eq_nil_iff.1 hnil)
  unfold trimStart at hne ⊢
  rw [List.dropWhile_append, if_neg (by simpa using hne)]

/-- **Blanks at its ends** make no difference to a text that is trimmed. -/
theorem trim_pad (hbefore : Blank before) (hafter : Blank after) (cs : List Char) :
    trim (before ++ cs ++ after) = trim cs := by
  rw [List.append_assoc, trim_eq_trimEnd, trim_eq_trimEnd, trimStart_append_of_blank hbefore]
  by_cases hcs : Blank cs
  · rw [trimStart_append_of_blank hcs, trimStart_eq_nil_iff.2 hcs, trimStart_eq_nil_iff.2 hafter]
  · rw [trimStart_append_of_not_blank hcs, trimEnd_append_of_blank hafter]

/-- A text is some blanks and what trimming its start leaves. -/
theorem exists_blank_append_trimStart (cs : List Char) :
    ∃ before, Blank before ∧ cs = before ++ trimStart cs :=
  ⟨cs.takeWhile isBlank, fun _ hc => List.mem_takeWhile_imp hc,
    List.takeWhile_append_dropWhile.symm⟩

/-- A text is what trimming its end leaves, and some blanks. -/
theorem exists_trimEnd_append_blank (cs : List Char) :
    ∃ after, Blank after ∧ cs = trimEnd cs ++ after := by
  obtain ⟨before, hblank, hcs⟩ := exists_blank_append_trimStart cs.reverse
  refine ⟨before.reverse, fun c hc => hblank c (List.mem_reverse.1 hc), ?_⟩
  rw [trimEnd, ← List.reverse_append, ← hcs, List.reverse_reverse]

theorem trim_trimStart (cs : List Char) : trim (trimStart cs) = trim cs := by
  obtain ⟨before, hblank, hcs⟩ := exists_blank_append_trimStart cs
  calc trim (trimStart cs) = trim (before ++ trimStart cs ++ []) :=
        (trim_pad hblank (by simp [Blank]) _).symm
    _ = trim cs := by rw [List.append_nil, ← hcs]

theorem trim_trimEnd (cs : List Char) : trim (trimEnd cs) = trim cs := by
  obtain ⟨after, hblank, hcs⟩ := exists_trimEnd_append_blank cs
  calc trim (trimEnd cs) = trim ([] ++ trimEnd cs ++ after) :=
        (trim_pad (by simp [Blank]) hblank _).symm
    _ = trim cs := by rw [List.nil_append, ← hcs]

/-- Trimming a text around an equals sign. -/
theorem trim_equation (key value : List Char) :
    trim (key ++ '=' :: value) = trimStart key ++ '=' :: trimEnd value := by
  have hsign : ¬ Blank ['='] := fun h => absurd (h '=' (List.mem_singleton_self _)) (by decide)
  have hstart : trimStart (key ++ '=' :: value) = trimStart key ++ '=' :: value := by
    by_cases hkey : Blank key
    · rw [trimStart_append_of_blank hkey, trimStart_eq_nil_iff.2 hkey]
      rfl
    · exact trimStart_append_of_not_blank hkey _
  rw [trim_eq_trimEnd, hstart]
  unfold trimEnd
  by_cases hvalue : Blank value.reverse
  · rw [trimStart_eq_nil_iff.2 hvalue, List.reverse_append, List.reverse_cons, List.append_assoc,
      trimStart_append_of_blank hvalue, List.singleton_append]
    simp [trimStart, isBlank]
  · rw [List.reverse_append, List.reverse_cons, List.append_assoc,
      trimStart_append_of_not_blank hvalue]
    simp

end Text

/-! ## Keys -/

/-- The settings that are numbers. -/
inductive NumericKey where
  | frames
  | tlbSlots
  | stackPages
  | argPages
  | victimRetries
  | seed
  deriving DecidableEq

namespace NumericKey

/-- What a line calls the setting. -/
def name : NumericKey → String
  | .frames => "Processor.numPhysPages"
  | .tlbSlots => "Processor.numTLBEntries"
  | .stackPages => "Processor.numStackPages"
  | .argPages => "Processor.numArgPages"
  | .victimRetries => "VM.victimRetries"
  | .seed => "Machine.randomSeed"

/-- The number that a machine has for the setting. -/
def get (c : MachineConfig) : NumericKey → Nat
  | .frames => c.frames
  | .tlbSlots => c.tlbSlots
  | .stackPages => c.stackPages
  | .argPages => c.argPages
  | .victimRetries => c.victimRetries
  | .seed => c.seed

/-- A machine with another number for the setting. -/
def put (c : MachineConfig) (n : Nat) : NumericKey → MachineConfig
  | .frames => { c with frames := n }
  | .tlbSlots => { c with tlbSlots := n }
  | .stackPages => { c with stackPages := n }
  | .argPages => { c with argPages := n }
  | .victimRetries => { c with victimRetries := n }
  | .seed => { c with seed := n }

variable {c d : MachineConfig} {n : Nat} {k l : NumericKey}

@[simp] theorem get_put_self : k.get (k.put c n) = n := by cases k <;> rfl

theorem get_put_of_ne (h : l ≠ k) : l.get (k.put c n) = l.get c := by
  cases k <;> cases l <;> first | rfl | exact absurd rfl h

@[simp] theorem swapFile_put : (k.put c n).swapFile = c.swapFile := by cases k <;> rfl

theorem name_injective (h : k.name = l.name) : k = l := by
  cases k <;> cases l <;> first | rfl | exact absurd h (by decide)

/-- Two machines are the same if all numbers are and the name of the swap file is. -/
theorem ext_get (hnumbers : ∀ k : NumericKey, k.get c = k.get d)
    (hfile : c.swapFile = d.swapFile) : c = d := by
  cases c
  cases d
  simp only [MachineConfig.mk.injEq]
  exact ⟨hnumbers .frames, hnumbers .tlbSlots, hnumbers .stackPages, hnumbers .argPages,
    hnumbers .victimRetries, hnumbers .seed, hfile⟩

end NumericKey

namespace MachineConfig

variable {c : MachineConfig} {key value line : List Char} {k : NumericKey}

/-- What a line calls the name of the swap file. -/
def swapFileKey : String := "VM.swapFile"

/-- Does a key not concern paging? -/
def Unknown (key : String) : Prop := (∀ k : NumericKey, key ≠ k.name) ∧ key ≠ swapFileKey

theorem name_ne_swapFileKey : k.name ≠ swapFileKey := by cases k <;> decide

theorem set_numeric (hkey : String.ofList key = k.name) :
    c.set key value = (number value).map fun n => k.put c n := by
  unfold set
  rw [hkey]
  cases k <;> rfl

theorem set_swapFile (hkey : String.ofList key = swapFileKey) :
    c.set key value = .ok { c with swapFile := String.ofList value } := by
  unfold set
  rw [hkey]
  rfl

theorem set_unknown (hkey : Unknown (String.ofList key)) : c.set key value = .ok c := by
  obtain ⟨hnumeric, hfile⟩ := hkey
  unfold set
  split
  · rename_i h
    exact absurd h (hnumeric .frames)
  · rename_i h
    exact absurd h (hnumeric .tlbSlots)
  · rename_i h
    exact absurd h (hnumeric .stackPages)
  · rename_i h
    exact absurd h (hnumeric .argPages)
  · rename_i h
    exact absurd h (hnumeric .victimRetries)
  · rename_i h
    exact absurd h (hnumeric .seed)
  · rename_i h
    exact absurd h hfile
  · rfl

/-! ## Single lines -/

/-- The key and the value on a line that has an equals sign. -/
def setting? (line : List Char) : Option (String × List Char) :=
  (assignment? (content line)).map fun (key, value) => (String.ofList key, value)

/-- A line makes sense by itself. -/
structure Sensible (line : List Char) : Prop where
  /-- there is nothing on it, or a key and a value -/
  readable : content line = [] ∨ '=' ∈ content line
  /-- what stands for a number is one -/
  number : ∀ (k : NumericKey) (value : List Char), setting? line = some (k.name, value) →
    ∃ n, Text.numeral? wordLimit value = some n

theorem assignment?_eq_none {text : List Char} : assignment? text = none ↔ '=' ∉ text := by
  unfold assignment?
  cases h : text.dropWhile (· ≠ '=') with
  | nil =>
    rw [List.dropWhile_eq_nil_iff] at h
    simpa using fun hmem => absurd rfl (of_decide_eq_true (h '=' hmem))
  | cons c rest =>
    simp only [reduceCtorEq, false_iff, not_not]
    by_contra hno
    rw [List.dropWhile_eq_nil_iff.2 fun d hd => decide_eq_true (ne_of_mem_of_not_mem hd hno)] at h
    cases h

/-- Every line is empty, or makes no sense, or gives a key a value. -/
theorem line_cases (line : List Char) :
    content line = [] ∨ (content line ≠ [] ∧ '=' ∉ content line) ∨
      ∃ key value, assignment? (content line) = some (key, value) := by
  by_cases hnil : content line = []
  · exact .inl hnil
  · cases h : assignment? (content line) with
    | none => exact .inr (.inl ⟨hnil, assignment?_eq_none.1 h⟩)
    | some entry => exact .inr (.inr ⟨entry.1, entry.2, rfl⟩)

theorem applyLine_of_empty (h : content line = []) : c.applyLine line = .ok c := by
  unfold applyLine
  rw [h]

theorem applyLine_of_no_sign (hne : content line ≠ []) (h : '=' ∉ content line) :
    c.applyLine line = .error .badConfig := by
  unfold applyLine
  split
  · contradiction
  · rw [assignment?_eq_none.2 h]

theorem applyLine_of_assignment (h : assignment? (content line) = some (key, value)) :
    c.applyLine line = c.set key value := by
  unfold applyLine
  split
  · rename_i hnil
    rw [hnil] at h
    cases h
  · rw [h]

theorem setting?_of_empty (h : content line = []) : setting? line = none := by
  rw [setting?, h]
  rfl

theorem setting?_of_assignment (h : assignment? (content line) = some (key, value)) :
    setting? line = some (String.ofList key, value) := by
  rw [setting?, h]
  rfl

theorem sensible_iff_of_assignment (h : assignment? (content line) = some (key, value)) :
    Sensible line ↔ ∀ k : NumericKey, String.ofList key = k.name →
      ∃ n, Text.numeral? wordLimit value = some n := by
  have hsign : '=' ∈ content line := by
    by_contra hno
    rw [assignment?_eq_none.2 hno] at h
    cases h
  constructor
  · intro hline k hk
    exact hline.number k value (hk ▸ setting?_of_assignment h)
  · intro hnumber
    refine ⟨.inr hsign, fun k v hv => ?_⟩
    rw [setting?_of_assignment h, Option.some.injEq, Prod.mk.injEq] at hv
    obtain ⟨hk, rfl⟩ := hv
    exact hnumber k hk

theorem sensible_of_empty (h : content line = []) : Sensible line where
  readable := .inl h
  number k value hentry := by
    rw [setting?_of_empty h] at hentry
    cases hentry

/-- A key is one of the numbers, or the name of the swap file, or does not concern paging. -/
theorem key_cases (key : String) :
    (∃ k : NumericKey, key = k.name) ∨ key = swapFileKey ∨ Unknown key := by
  by_cases hnumeric : ∃ k : NumericKey, key = k.name
  · exact .inl hnumeric
  · by_cases hfile : key = swapFileKey
    · exact .inr (.inl hfile)
    · exact .inr (.inr ⟨fun k hk => hnumeric ⟨k, hk⟩, hfile⟩)

/-- The value that a line gives a key. -/
def valueOf? (key : String) (line : List Char) : Option (List Char) :=
  (setting? line).bind fun (name, value) => if name = key then some value else none

variable {name : String}

theorem valueOf?_of_empty (h : content line = []) : valueOf? name line = none := by
  rw [valueOf?, setting?_of_empty h]
  rfl

theorem valueOf?_of_assignment (h : assignment? (content line) = some (key, value)) :
    valueOf? name line = if String.ofList key = name then some value else none := by
  rw [valueOf?, setting?_of_assignment h]
  rfl

/-- What a line makes of a machine: each setting is what the line says, or stays as it is. -/
structure Follows (line : List Char) (c d : MachineConfig) : Prop where
  number : ∀ k : NumericKey, (valueOf? k.name line).elim (k.get d = k.get c) fun value =>
    Text.numeral? wordLimit value = some (k.get d)
  swapFile : d.swapFile = ((valueOf? swapFileKey line).map String.ofList).getD c.swapFile

theorem follows_of_valueless (h : ∀ name, ¬ Unknown name → valueOf? name line = none) :
    Follows line c c where
  number k := by
    rw [h k.name fun hunknown => hunknown.1 k rfl]
    rfl
  swapFile := by
    rw [h swapFileKey fun hunknown => hunknown.2 rfl]
    rfl

/-- **A line that makes sense** sets what it names and nothing else, whatever went before. -/
theorem applyLine_of_sensible (h : Sensible line) (c : MachineConfig) :
    ∃ d, c.applyLine line = .ok d ∧ Follows line c d := by
  obtain hnil | ⟨hne, hsign⟩ | ⟨key, value, hentry⟩ := line_cases line
  · exact ⟨c, applyLine_of_empty hnil, follows_of_valueless fun _ _ => valueOf?_of_empty hnil⟩
  · exact absurd h.readable (not_or.2 ⟨hne, hsign⟩)
  have hvalue (name : String) : valueOf? name line = if String.ofList key = name then some value
      else none := valueOf?_of_assignment hentry
  rw [applyLine_of_assignment hentry]
  obtain ⟨k, hk⟩ | hfile | hunknown := key_cases (String.ofList key)
  · obtain ⟨n, hn⟩ := (sensible_iff_of_assignment hentry).1 h k hk
    refine ⟨k.put c n, by rw [set_numeric hk, MachineConfig.number, hn]; rfl, fun l => ?_, ?_⟩
    · rw [hvalue, hk]
      by_cases hl : l = k
      · rw [if_pos (hl ▸ rfl), Option.elim_some, hl, NumericKey.get_put_self, hn]
      · rw [if_neg fun hname => hl (NumericKey.name_injective hname).symm, Option.elim_none,
          NumericKey.get_put_of_ne hl]
    · rw [hvalue, hk, if_neg name_ne_swapFileKey, NumericKey.swapFile_put]
      rfl
  · refine ⟨_, set_swapFile hfile, fun l => ?_, ?_⟩
    · rw [hvalue, hfile, if_neg (Ne.symm name_ne_swapFileKey), Option.elim_none]
      cases l <;> rfl
    · rw [hvalue, if_pos hfile]
      rfl
  · refine ⟨c, set_unknown hunknown, follows_of_valueless fun name hknown => ?_⟩
    rw [hvalue, if_neg fun hname : String.ofList key = name => hknown (hname ▸ hunknown)]

/-- It is an error, whatever went before, if it does not. -/
theorem applyLine_of_not_sensible (h : ¬ Sensible line) : c.applyLine line = .error .badConfig := by
  obtain hnil | ⟨hne, hsign⟩ | ⟨key, value, hentry⟩ := line_cases line
  · exact absurd (sensible_of_empty hnil) h
  · exact applyLine_of_no_sign hne hsign
  -- a key and a value make no sense only where there should be a number
  rw [sensible_iff_of_assignment hentry] at h
  push Not at h
  obtain ⟨k, hk, hvalue⟩ := h
  rw [applyLine_of_assignment hentry, set_numeric hk, number,
    Option.eq_none_iff_forall_ne_some.2 hvalue]
  rfl

/-! ## Several lines -/

/-- The value on the last line that names a key. -/
def lastValue (key : String) (lines : List (List Char)) : Option (List Char) :=
  (lines.filterMap (valueOf? key)).getLast?

/-- The number on the last line that names a setting, or its default. -/
def numberOf (lines : List (List Char)) (k : NumericKey) : Nat :=
  ((lastValue k.name lines).bind (Text.numeral? wordLimit)).getD (k.get {})

/-- The machine whose settings are what the last lines that name them say, or their defaults. -/
def described (lines : List (List Char)) : MachineConfig where
  frames := numberOf lines .frames
  tlbSlots := numberOf lines .tlbSlots
  stackPages := numberOf lines .stackPages
  argPages := numberOf lines .argPages
  victimRetries := numberOf lines .victimRetries
  seed := numberOf lines .seed
  swapFile :=
    ((lastValue swapFileKey lines).map String.ofList).getD ({} : MachineConfig).swapFile

variable {lines lines' before after : List (List Char)}

@[simp] theorem get_described : k.get (described lines) = numberOf lines k := by cases k <;> rfl

theorem swapFile_described : (described lines).swapFile =
    ((lastValue swapFileKey lines).map String.ofList).getD ({} : MachineConfig).swapFile := rfl

theorem lastValue_append : lastValue name (before ++ after) =
    (lastValue name after).or (lastValue name before) := by
  unfold lastValue
  rw [List.filterMap_append, List.getLast?_append]

theorem lastValue_singleton : lastValue name [line] = valueOf? name line := by
  unfold lastValue
  cases h : valueOf? name line <;> simp [h]

/-- One more line that makes sense turns the machine that the lines before it describe into the one
that all of them describe. -/
theorem applyLine_described (h : Sensible line) :
    (described lines).applyLine line = .ok (described (lines ++ [line])) := by
  obtain ⟨d, hd, hfollows⟩ := applyLine_of_sensible h (described lines)
  rw [hd]
  refine congrArg Except.ok (NumericKey.ext_get (fun k => ?_) ?_)
  · have hnumber := hfollows.number k
    rw [get_described, numberOf, lastValue_append, lastValue_singleton]
    cases hvalue : valueOf? k.name line with
    | none =>
      rw [hvalue, Option.elim_none, get_described] at hnumber
      rw [hnumber, Option.none_or, numberOf]
    | some value =>
      rw [hvalue, Option.elim_some] at hnumber
      rw [Option.some_or, Option.bind_some, hnumber, Option.getD_some]
  · rw [hfollows.swapFile, swapFile_described, swapFile_described, lastValue_append,
      lastValue_singleton]
    cases valueOf? swapFileKey line <;> rfl

/-- **Reading lines that all make sense** gives the machine they describe. -/
theorem applyLines_eq_ok (h : ∀ line ∈ lines, Sensible line) :
    applyLines {} lines = .ok (described lines) := by
  -- the last line decides, so the induction takes lines from the end
  induction lines using List.reverseRec with
  | nil => rfl
  | append_singleton lines line ih =>
    rw [applyLines_append, ih fun l hl => h l (List.mem_append_left _ hl)]
    show applyLines (described lines) [line] = _
    rw [applyLines, applyLine_described (h line (by simp))]
    rfl

/-- **Reading lines of which one makes no sense** fails. -/
theorem applyLines_eq_error (h : ¬ ∀ line ∈ lines, Sensible line) :
    applyLines c lines = .error .badConfig := by
  induction lines generalizing c with
  | nil => exact absurd (by simp) h
  | cons line rest ih =>
    unfold applyLines
    by_cases hline : Sensible line
    · obtain ⟨d, hd, -⟩ := applyLine_of_sensible hline c
      rw [hd]
      exact ih fun hrest => h (List.forall_mem_cons.2 ⟨hline, hrest⟩)
    · rw [applyLine_of_not_sensible hline]

theorem check_cases (c : MachineConfig) : c.check = .ok () ∨ c.check = .error .badConfig := by
  unfold check
  split
  · exact .inl rfl
  · exact .inr rfl

/-! ## Texts -/

variable {text : String} {d : MachineConfig}

/-- A text describes a machine: its lines make sense, the settings are what the last lines that name
them say, or their defaults, and paging can run on it. -/
structure Describes (text : String) (c : MachineConfig) : Prop where
  sensible : ∀ line ∈ Text.lines text.toList, Sensible line
  settings : c = described (Text.lines text.toList)
  usable : c.check = .ok ()

theorem parse_of_describes (h : Describes text c) : parse text = .ok c := by
  unfold parse
  rw [applyLines_eq_ok h.sensible, ← h.settings]
  dsimp only
  rw [h.usable]

theorem parse_cases (text : String) :
    (∃ c, parse text = .ok c ∧ Describes text c) ∨ parse text = .error .badConfig := by
  by_cases hsensible : ∀ line ∈ Text.lines text.toList, Sensible line
  · obtain hok | herror := check_cases (described (Text.lines text.toList))
    · have h : Describes text (described (Text.lines text.toList)) := ⟨hsensible, rfl, hok⟩
      exact .inl ⟨_, parse_of_describes h, h⟩
    · refine .inr ?_
      unfold parse
      rw [applyLines_eq_ok hsensible]
      dsimp only
      rw [herror]
  · refine .inr ?_
    unfold parse
    rw [applyLines_eq_error hsensible]

theorem parse_eq_ok : parse text = .ok c ↔ Describes text c := by
  refine ⟨fun h => ?_, parse_of_describes⟩
  obtain ⟨d, hd, hdescribes⟩ | herror := parse_cases text
  · rw [hd] at h
    exact Except.ok.inj h ▸ hdescribes
  · rw [herror] at h
    cases h

/-! ## Edits -/

/-- Nothing, or a comment. -/
def Comment (cs : List Char) : Prop := ∀ c ∈ cs.head?, c = '#'

/-- A change of some lines that does not change what they say. -/
inductive Edit : List (List Char) → List (List Char) → Prop where
  /-- a new line with nothing on it, or a comment only -/
  | blank {blanks comment : List Char} :
    Text.Blank blanks → Comment comment → Edit [] [blanks ++ comment]
  /-- a new line with a key that does not concern paging -/
  | unknown {line value : List Char} {key : String} :
    setting? line = some (key, value) → Unknown key → Edit [] [line]
  /-- a comment after a line -/
  | comment (line comment : List Char) : Edit [line] [line ++ '#' :: comment]
  /-- blanks at the ends of a line, such as what is left of a line end with a carriage return -/
  | indent {b₁ b₂ : List Char} (line : List Char) :
    Text.Blank b₁ → Text.Blank b₂ → Edit [line] [b₁ ++ line ++ b₂]
  /-- blanks around a key and around its value -/
  | pad {key value comment b₁ b₂ b₃ b₄ : List Char} :
    '#' ∉ key → '=' ∉ key → '#' ∉ value → Comment comment →
    Text.Blank b₁ → Text.Blank b₂ → Text.Blank b₃ → Text.Blank b₄ →
    Edit [key ++ '=' :: (value ++ comment)]
      [(b₁ ++ key ++ b₂) ++ '=' :: ((b₃ ++ value ++ b₄) ++ comment)]
  /-- another order, the lines with one key staying in order -/
  | permute {lines lines' : List (List Char)} :
    lines.Perm lines' →
    (∀ key, lines.filter (fun line => (valueOf? key line).isSome) =
      lines'.filter fun line => (valueOf? key line).isSome) →
    Edit lines lines'
  /-- any of these among other lines -/
  | among {lines lines' : List (List Char)} (before after : List (List Char)) :
    Edit lines lines' → Edit (before ++ lines ++ after) (before ++ lines' ++ after)

/-- Some lines say the same as some others. -/
structure SameMeaning (lines lines' : List (List Char)) : Prop where
  sensible : (∀ line ∈ lines, Sensible line) ↔ ∀ line ∈ lines', Sensible line
  value : ∀ name, ¬ Unknown name → lastValue name lines = lastValue name lines'

namespace SameMeaning

theorem refl (lines : List (List Char)) : SameMeaning lines lines := ⟨Iff.rfl, fun _ _ => rfl⟩

theorem symm (h : SameMeaning lines lines') : SameMeaning lines' lines :=
  ⟨h.sensible.symm, fun name hname => (h.value name hname).symm⟩

theorem trans {lines'' : List (List Char)} (h : SameMeaning lines lines')
    (h' : SameMeaning lines' lines'') : SameMeaning lines lines'' :=
  ⟨h.sensible.trans h'.sensible, fun name hname => (h.value name hname).trans (h'.value name hname)⟩

theorem among (h : SameMeaning lines lines') (before after : List (List Char)) :
    SameMeaning (before ++ lines ++ after) (before ++ lines' ++ after) where
  sensible := by simp only [List.forall_mem_append, h.sensible]
  value name hname := by simp only [lastValue_append, h.value name hname]

theorem insert (hline : Sensible line) (h : ∀ name, ¬ Unknown name → valueOf? name line = none) :
    SameMeaning [] [line] where
  sensible := by simp [hline]
  value name hname := by
    rw [lastValue_singleton, h name hname]
    rfl

theorem replace {line' : List Char} (hline : Sensible line ↔ Sensible line')
    (h : ∀ name, valueOf? name line = valueOf? name line') : SameMeaning [line] [line'] where
  sensible := by rw [List.forall_mem_singleton, List.forall_mem_singleton, hline]
  value name _ := by rw [lastValue_singleton, lastValue_singleton, h]

theorem of_content {line' : List Char} (h : content line = content line') :
    SameMeaning [line] [line'] := by
  have hentry : setting? line = setting? line' := by rw [setting?, setting?, h]
  refine .replace ⟨fun ⟨hline, hnumber⟩ => ?_, fun ⟨hline, hnumber⟩ => ?_⟩ fun name => ?_
  · exact ⟨h ▸ hline, hentry ▸ hnumber⟩
  · exact ⟨h ▸ hline, hentry ▸ hnumber⟩
  · rw [valueOf?, valueOf?, hentry]

theorem described_eq (h : SameMeaning lines lines') : described lines = described lines' := by
  apply NumericKey.ext_get
  · intro k
    rw [get_described, get_described, numberOf, numberOf,
      h.value k.name fun hunknown => hunknown.1 k rfl]
  · rw [swapFile_described, swapFile_described, h.value swapFileKey fun hunknown => hunknown.2 rfl]

end SameMeaning

theorem takeWhile_comment {cs comment : List Char} (hcs : '#' ∉ cs) (hcomment : Comment comment) :
    (cs ++ comment).takeWhile (· ≠ '#') = cs := by
  rw [List.takeWhile_append_of_pos fun c hc => decide_eq_true (ne_of_mem_of_not_mem hc hcs)]
  cases comment with
  | nil => simp
  | cons c rest =>
    obtain rfl : c = '#' := hcomment c rfl
    simp

theorem content_comment (line comment : List Char) :
    content (line ++ '#' :: comment) = content line := by
  unfold content
  by_cases hline : '#' ∈ line
  · rw [List.takeWhile_append, if_neg]
    intro hlength
    have hall := List.takeWhile_eq_self_iff.1 ((List.takeWhile_prefix _).eq_of_length hlength)
    exact absurd rfl (of_decide_eq_true (hall '#' hline))
  · have hline' : Comment ('#' :: comment) := fun c hc => (Option.mem_some_iff.1 hc).symm
    have hclean : ∀ c ∈ line, decide (c ≠ '#') = true := fun c hc =>
      decide_eq_true (ne_of_mem_of_not_mem hc hline)
    rw [takeWhile_comment hline hline', List.takeWhile_eq_self_iff.2 hclean]

theorem content_pad {b₁ b₂ : List Char} (h₁ : Text.Blank b₁) (h₂ : Text.Blank b₂)
    (line : List Char) : content (b₁ ++ line ++ b₂) = content line := by
  have hclean {b : List Char} (hb : Text.Blank b) : ∀ c ∈ b, decide (c ≠ '#') = true := by
    rintro c hc
    refine decide_eq_true fun heq => ?_
    have := hb c hc
    rw [heq] at this
    exact absurd this (by decide)
  unfold content
  rw [List.append_assoc, List.takeWhile_append_of_pos (hclean h₁), List.takeWhile_append]
  split
  · rename_i hlength
    have hline := (List.takeWhile_prefix _).eq_of_length hlength
    rw [List.takeWhile_eq_self_iff.2 (hclean h₂), ← List.append_assoc, Text.trim_pad h₁ h₂, hline]
  · rw [← List.append_nil (b₁ ++ _), Text.trim_pad h₁ (by simp [Text.Blank])]

/-- What stands on a line with one equals sign before its value and its comment. -/
theorem assignment?_equation {comment : List Char} (hkey : '#' ∉ key) (hsign : '=' ∉ key)
    (hvalue : '#' ∉ value) (hcomment : Comment comment) :
    assignment? (content (key ++ '=' :: (value ++ comment))) =
      some (Text.trim key, Text.trim value) := by
  have hcontent : content (key ++ '=' :: (value ++ comment)) =
      Text.trimStart key ++ '=' :: Text.trimEnd value := by
    rw [content, ← List.cons_append, ← List.append_assoc,
      takeWhile_comment (by simp [hkey, hvalue]) hcomment, Text.trim_equation]
  have hclean : ∀ c ∈ Text.trimStart key, decide (c ≠ '=') = true := fun c hc =>
    decide_eq_true (ne_of_mem_of_not_mem ((List.dropWhile_sublist _).subset hc) hsign)
  unfold assignment?
  rw [hcontent, List.dropWhile_append_of_pos hclean, List.takeWhile_append_of_pos hclean]
  simp [Text.trim_trimStart, Text.trim_trimEnd]

theorem not_mem_pad {c : Char} {b₁ b₂ : List Char} (h₁ : Text.Blank b₁) (h₂ : Text.Blank b₂)
    (hc : Text.isBlank c = false) (h : c ∉ key) : c ∉ b₁ ++ key ++ b₂ := by
  have hblank {b : List Char} (hb : Text.Blank b) : c ∉ b := fun hmem => by
    rw [hb c hmem] at hc
    cases hc
  simp [hblank h₁, hblank h₂, h]

/-- What a key is given on some lines is so on those of them that name it. -/
theorem lastValue_filter (name : String) (lines : List (List Char)) :
    lastValue name (lines.filter fun line => (valueOf? name line).isSome) =
      lastValue name lines := by
  unfold lastValue
  rw [List.filterMap_filter]
  congr 2
  funext line
  cases valueOf? name line <;> rfl

/-- **An edit** does not change what the lines say. -/
theorem Edit.sameMeaning (h : Edit lines lines') : SameMeaning lines lines' := by
  induction h with
  | @blank blanks comment hblank hcomment =>
    have hcontent : content (blanks ++ comment) = [] := by
      rw [content, takeWhile_comment (fun hmem => ?_) hcomment]
      · exact Text.trim_eq_nil_iff.2 hblank
      · exact absurd (hblank '#' hmem) (by decide)
    exact .insert (sensible_of_empty hcontent) fun _ _ => valueOf?_of_empty hcontent
  | @unknown line value key hentry hunknown =>
    obtain ⟨entry, hassignment, hkey⟩ := Option.map_eq_some_iff.1 hentry
    rw [Prod.mk.injEq] at hkey
    obtain ⟨rfl, rfl⟩ := hkey
    refine .insert ((sensible_iff_of_assignment hassignment).2 fun k hk => ?_) fun name hname => ?_
    · exact absurd hk (hunknown.1 k)
    · rw [valueOf?_of_assignment hassignment, if_neg fun hkey : _ = name => hname (hkey ▸ hunknown)]
  | comment line comment => exact .of_content (content_comment line comment).symm
  | indent line h₁ h₂ => exact .of_content (content_pad h₁ h₂ line).symm
  | pad hkey hsign hvalue hcomment h₁ h₂ h₃ h₄ =>
    have hbare := assignment?_equation hkey hsign hvalue hcomment
    have hpadded := assignment?_equation (not_mem_pad h₁ h₂ (by decide) hkey)
      (not_mem_pad h₁ h₂ (by decide) hsign) (not_mem_pad h₃ h₄ (by decide) hvalue) hcomment
    rw [Text.trim_pad h₁ h₂, Text.trim_pad h₃ h₄] at hpadded
    refine .replace ?_ fun name => ?_
    · rw [sensible_iff_of_assignment hbare, sensible_iff_of_assignment hpadded]
    · rw [valueOf?_of_assignment hbare, valueOf?_of_assignment hpadded]
  | @permute lines lines' hperm hfilter =>
    refine ⟨by simp only [hperm.mem_iff], fun name _ => ?_⟩
    rw [← lastValue_filter name lines, hfilter name, lastValue_filter]
  | among before after _ ih => exact ih.among before after

/-- Neither do several, made or taken back. -/
theorem sameMeaning_of_edits (h : Relation.EqvGen Edit lines lines') :
    SameMeaning lines lines' := by
  induction h with
  | rel _ _ h => exact h.sameMeaning
  | refl lines => exact .refl lines
  | symm _ _ _ ih => exact ih.symm
  | trans _ _ _ _ _ ih ih' => exact ih.trans ih'

/-- Texts that say the same describe the same machine. -/
theorem SameMeaning.describes_iff {text' : String}
    (h : SameMeaning (Text.lines text.toList) (Text.lines text'.toList)) :
    Describes text c ↔ Describes text' c := by
  constructor
  · rintro ⟨hsensible, hsettings, husable⟩
    exact ⟨h.sensible.1 hsensible, hsettings.trans h.described_eq, husable⟩
  · rintro ⟨hsensible, hsettings, husable⟩
    exact ⟨h.sensible.2 hsensible, hsettings.trans h.described_eq.symm, husable⟩

/-- **A configuration text means what its lines say.**  Reading it gives exactly the machine that it
describes, an error if there is none, and the same after blank lines, comments, lines with other
keys or blanks were put in or taken out, or lines with different keys were exchanged. -/
theorem parse_describes (text : String) :
    (∀ c, parse text = .ok c ↔ Describes text c) ∧
    ((∀ c, ¬ Describes text c) ↔ parse text = .error .badConfig) ∧
    ∀ text' : String,
      Relation.EqvGen Edit (Text.lines text.toList) (Text.lines text'.toList) →
        parse text' = parse text := by
  refine ⟨fun c => parse_eq_ok, ⟨fun h => ?_, fun h c hc => ?_⟩, fun text' hedits => ?_⟩
  · obtain ⟨c, -, hc⟩ | herror := parse_cases text
    · exact absurd hc (h c)
    · exact herror
  · rw [parse_of_describes hc] at h
    cases h
  · have hsame := sameMeaning_of_edits hedits
    obtain ⟨c, hc, hdescribes⟩ | herror := parse_cases text
    · rw [hc, parse_of_describes (hsame.describes_iff.1 hdescribes)]
    · obtain ⟨c, -, hdescribes⟩ | herror' := parse_cases text'
      · rw [parse_of_describes (hsame.describes_iff.2 hdescribes)] at herror
        cases herror
      · rw [herror, herror']

example : parse "# machine\nProcessor.numPhysPages = 4\r\nProcessor.numTLBEntries=2 # tiny\n" =
    .ok { frames := 4, tlbSlots := 2 } := by rfl

end MachineConfig

end DemandPaging
