import Mathlib.Data.List.DropRight
import Scheduling.Benchmark.Run
import Scheduling.Console.Line
import Scheduling.Proofs.Figures

/-!
# Texts on the console

What becomes of a text that a notice brings to the console: an error, the reason of a stop, the name
of a run. Its line has the text without the double quotes at its ends (`Bears.framed`), so it has the
text as it is exactly when there are none (`shown_line`). The error of a line that cannot be read
ends in a quote, and so is never shown whole (`not_bare_badMessage`).
-/

namespace Scheduling

/-! ### Quotes at the ends of a text -/

/-- A text has no double quote at its ends. -/
def Bare (t : String) : Prop := t.toList.head? ≠ some '"' ∧ t.toList.getLast? ≠ some '"'

instance (t : String) : Decidable (Bare t) := inferInstanceAs (Decidable (_ ∧ _))

namespace FieldValue

theorem toList_trimQuotes (t : String) :
    (trimQuotes t).toList = (t.toList.dropWhile (· == '"')).rdropWhile (· == '"') :=
  String.toList_ofList

theorem dropWhile_eq_self_of_head? {cs : List Char} (h : cs.head? ≠ some '"') :
    cs.dropWhile (· == '"') = cs := by
  cases cs with
  | nil => rfl
  | cons c cs => exact List.dropWhile_cons_of_neg (by simpa using h)

theorem trimQuotes_of_bare {t : String} (h : Bare t) : trimQuotes t = t := by
  rw [← String.toList_inj, toList_trimQuotes, dropWhile_eq_self_of_head? h.1,
    List.rdropWhile_eq_self_iff]
  intro hne hlast
  refine h.2 ((List.getLast?_eq_some_getLast hne).trans (congrArg some ?_))
  simpa using hlast

/-- A text that has a quote at an end loses it. -/
theorem count_trimQuotes_lt {t : String} (h : ¬ Bare t) :
    (trimQuotes t).toList.count '"' < t.toList.count '"' := by
  rw [toList_trimQuotes]
  generalize hcs : t.toList = cs
  by_cases hhead : cs.head? = some '"'
  · obtain ⟨rest, rfl⟩ := List.head?_eq_some_iff.1 hhead
    have hrest : (rest.dropWhile (· == '"')).count '"' ≤ rest.count '"' :=
      (List.dropWhile_suffix _).sublist.count_le _
    have hend := (List.rdropWhile_prefix (· == '"')
      (l := rest.dropWhile (· == '"'))).sublist.count_le '"'
    rw [List.dropWhile_cons_of_pos rfl, List.count_cons_self]
    omega
  · have hlast : cs.getLast? = some '"' := by
      by_contra hlast
      exact h ⟨hcs ▸ hhead, hcs ▸ hlast⟩
    obtain ⟨front, rfl⟩ := List.getLast?_eq_some_iff.1 hlast
    have hfront := (List.rdropWhile_prefix (· == '"') (l := front)).sublist.count_le '"'
    have hquote : ['"'].count '"' = 1 := rfl
    rw [dropWhile_eq_self_of_head? hhead, List.rdropWhile_concat_pos _ _ _ rfl, List.count_append,
      hquote]
    omega

end FieldValue

/-! ### Texts without quotes -/

/-- No double quote stands in the text. -/
def Unquoted (s : String) : Prop := '"' ∉ s.toList

instance (s : String) : Decidable (Unquoted s) := inferInstanceAs (Decidable ('"' ∉ s.toList))

@[simp]
theorem unquoted_append {s t : String} : Unquoted (s ++ t) ↔ Unquoted s ∧ Unquoted t := by
  simp [Unquoted, not_or]

theorem Unquoted.bare {s : String} (h : Unquoted s) : Bare s :=
  ⟨fun hhead => h (List.mem_of_head? hhead), fun hlast => h (List.mem_of_getLast? hlast)⟩

theorem Figure.unquoted {s : String} (h : Figure s) : Unquoted s := h.not_mem (by decide)

theorem unquoted_ite {p : Prop} [Decidable p] {s t : String} (hs : Unquoted s) (ht : Unquoted t) :
    Unquoted (if p then s else t) := by
  split
  · exact hs
  · exact ht

theorem unquoted_escape (c : Color) : Unquoted ("\x1b[" ++ c.code ++ "m") := by
  cases c <;> decide

theorem Unquoted.paint {t : String} (h : Unquoted t) (c : Color) : Unquoted (c.paint t) :=
  unquoted_append.2 ⟨unquoted_append.2 ⟨unquoted_escape c, h⟩, by decide⟩

theorem Unquoted.embolden {t : String} (h : Unquoted t) : Unquoted (embolden t) :=
  unquoted_append.2 ⟨unquoted_append.2 ⟨by decide, h⟩, by decide⟩

theorem mem_separateThousands {c : Char} {digits : List Char} (h : c ∈ separateThousands digits) :
    c ∈ digits ∨ c = ',' := by
  rw [separateThousands] at h
  induction digits with
  | nil => exact .inl h
  | cons d digits ih =>
    rw [List.foldr_cons] at h
    generalize digits.foldr _ _ = read at h ih
    obtain ⟨n, out⟩ := read
    have hmem : c = d ∨ c = ',' ∨ c ∈ out := by
      dsimp only at h
      split at h
      · simpa using h
      · obtain rfl | hout := List.mem_cons.1 h
        · exact .inl rfl
        · exact .inr (.inr hout)
    obtain rfl | rfl | hout := hmem
    · exact .inl List.mem_cons_self
    · exact .inr rfl
    · exact (ih hout).imp (List.mem_cons_of_mem _) id

theorem unquoted_groupedNat (n : Nat) : Unquoted (groupedNat n) := by
  intro h
  rw [groupedNat, String.toList_ofList] at h
  obtain hdigit | hcomma := mem_separateThousands h
  · exact (figure_repr n).unquoted hdigit
  · exact absurd hcomma (by decide)

theorem unquoted_figure (x : Float) : Unquoted (figure x) := by
  refine unquoted_ite ?_ (Layout.figure_write _ x).unquoted
  rw [groupedInt, unquoted_append]
  exact ⟨unquoted_ite (by decide) (by decide), unquoted_groupedNat _⟩

theorem unquoted_timeSpan (x : Float) : Unquoted (timeSpan x) := by
  have hrepr (n : Nat) : Unquoted (Nat.repr n) := (figure_repr n).unquoted
  refine unquoted_ite ?_ (unquoted_ite ?_ ?_)
  · exact unquoted_append.2 ⟨hrepr _, by decide⟩
  · exact unquoted_append.2 ⟨(figure_fixedPlaces 2 x).unquoted, by decide⟩
  · simp only [unquoted_append]
    exact ⟨⟨⟨hrepr _, by decide⟩, hrepr _⟩, by decide⟩

theorem unquoted_stamp (x : Float) : Unquoted (stamp x) := by
  rw [stamp]
  simp only [unquoted_append]
  refine ⟨⟨fun h => ?_, (figure_fixedPlaces 3 x).unquoted⟩, by decide⟩
  rw [String.toList_ofList] at h
  exact absurd (List.eq_of_mem_replicate h) (by decide)

theorem Console.unquoted_objective (x : Option Float) : Unquoted (objective x) := by
  cases x with
  | none => decide
  | some x => exact ((unquoted_figure x).paint _).embolden

/-! ### Texts on lines -/

/-- The text stands on the line. If so stated, nothing around it has a quote. -/
def Frames (plain : Prop) (t line : String) : Prop :=
  ∃ before after, line = before ++ t ++ after ∧ (plain → Unquoted before ∧ Unquoted after)

namespace Frames

variable {plain : Prop} {t line s : String}

theorem refl (plain : Prop) (t : String) : Frames plain t t :=
  ⟨"", "", by rw [String.empty_append, String.append_empty], fun _ => ⟨by decide, by decide⟩⟩

theorem after (h : Frames plain t line) (hs : plain → Unquoted s) : Frames plain t (s ++ line) := by
  obtain ⟨before, after, rfl, hplain⟩ := h
  refine ⟨s ++ before, after, by simp only [String.append_assoc], fun hp => ?_⟩
  exact ⟨unquoted_append.2 ⟨hs hp, (hplain hp).1⟩, (hplain hp).2⟩

theorem before (h : Frames plain t line) (hs : plain → Unquoted s) : Frames plain t (line ++ s) := by
  obtain ⟨before, after, rfl, hplain⟩ := h
  refine ⟨before, after ++ s, by simp only [String.append_assoc], fun hp => ?_⟩
  exact ⟨(hplain hp).1, unquoted_append.2 ⟨(hplain hp).2, hs hp⟩⟩

theorem paint (h : Frames plain t line) (c : Color) : Frames plain t (c.paint line) :=
  (h.after fun _ => unquoted_escape c).before fun _ => by decide

theorem embolden (h : Frames plain t line) : Frames plain t (embolden line) :=
  (h.after fun _ => by decide).before fun _ => by decide

theorem isInfix (h : Frames plain t line) : t.toList <:+: line.toList := by
  obtain ⟨before, after, rfl, -⟩ := h
  rw [String.toList_append, String.toList_append]
  exact List.infix_append _ _ _

/-- A line that has a text without the quotes at its ends, and no other quotes, has the text as it is
only if there are no such quotes. -/
theorem bare (h : Frames plain (FieldValue.trimQuotes t) line) (hp : plain)
    (hline : t.toList <:+: line.toList) : Bare t := by
  obtain ⟨before, after, rfl, hplain⟩ := h
  obtain ⟨hbefore, hafter⟩ := hplain hp
  by_contra hbare
  have hlt := FieldValue.count_trimQuotes_lt hbare
  have hle := hline.sublist.count_le '"'
  rw [String.toList_append, String.toList_append, List.count_append, List.count_append,
    List.count_eq_zero_of_not_mem hbefore, List.count_eq_zero_of_not_mem hafter] at hle
  omega

end Frames

/-! ### Lines of notices -/

namespace Notice

/-- The notices that bring a text to the console, with that text, and with the other text on the line
that comes from elsewhere. -/
inductive Bears : Notice → String → String → Prop
  | engineError (t : Task) (e : SessionError) : Bears (.engineError t e) e.message ""
  | stopRequested (reason : String) : Bears (.stopRequested reason) reason ""
  | runStart (r : Run) : Bears (.runStart r) r.name ""
  | runEnd (r : RunResult) : Bears (.runEnd r) r.name ""
  | runFailed (name error : String) : Bears (.runFailed name error) error name

variable {n : Notice} {t beside : String}

/-- The line of a notice comes after the time. -/
theorem framed_of_content {plain : Prop} {text : String}
    (htarget : n.target = sessionTarget ∨ n.target = benchmarkTarget)
    (hcontent : Console.content n = some text) (h : Frames plain t text) (c : Console) (now : Float) :
    ∃ line, (c.show? now n).2 = some line ∧ Frames plain t line := by
  have hshows : Console.shows n.target = true := by
    obtain h | h := htarget <;> rw [h] <;> decide
  rw [Console.show?, if_pos hshows, hcontent]
  refine ⟨_, rfl, h.after fun _ => ?_⟩
  rw [unquoted_append]
  exact ⟨(unquoted_stamp _).paint _, by decide⟩

theorem unquoted_capitalize_name (t : Task) : Unquoted (capitalize t.name) := by
  cases t <;> decide

section Content

open Console FieldValue

/-- The name of a run on its lines. -/
theorem runName_eq (h : n.text? "model" = some t) :
    Console.runName n = embolden (Color.white.paint t) := by
  rw [Console.runName, textOr, h]
  rfl

theorem content_engineError (t : Task) (e : SessionError) :
    content (.engineError t e) = some (sign .brightRed "✗" ++ " " ++ capitalize t.name
      ++ " failed │ " ++ Color.brightRed.paint (trimQuotes e.message)) := rfl

theorem content_runStart (r : Run) :
    content (.runStart r) = some (Color.brightBlue.paint "▷" ++ " Run "
      ++ embolden (Color.white.paint (trimQuotes r.name)) ++ " started") := rfl

theorem content_runFailed (name error : String) :
    content (.runFailed name error) = some (sign .yellow "⚠" ++ " " ++ "run failed"
      ++ (" │ " ++ trimQuotes name) ++ (" │ " ++ Color.brightRed.paint (trimQuotes error))) := rfl

theorem content_runEnd (r : RunResult) : content (.runEnd r) = some (Console.runEnd (.runEnd r)) := rfl

end Content

/-- The line of a notice has its text without the quotes at its ends, between texts without quotes if
all else on the line is the console's own. -/
theorem Bears.framed (h : n.Bears t beside) (c : Console) (now : Float) :
    ∃ line, (c.show? now n).2 = some line ∧
      Frames (Unquoted beside) (FieldValue.trimQuotes t) line := by
  have hrefl := Frames.refl (Unquoted beside) (FieldValue.trimQuotes t)
  have hname := (hrefl.paint .white).embolden
  cases h with
  | engineError task e =>
    refine framed_of_content (.inl rfl) (content_engineError task e) ?_ c now
    refine (hrefl.paint .brightRed).after fun _ => ?_
    simp only [unquoted_append]
    exact ⟨⟨⟨by decide, by decide⟩, unquoted_capitalize_name task⟩, by decide⟩
  | stopRequested =>
    exact framed_of_content (.inl rfl) rfl (hrefl.after fun _ => by decide) c now
  | runStart r =>
    refine framed_of_content (.inr rfl) (content_runStart r) ?_ c now
    exact (hname.after fun _ => by decide).before fun _ => by decide
  | runEnd r =>
    refine framed_of_content (.inr rfl) (content_runEnd r) ?_ c now
    have hrun : Console.runName (.runEnd r) = _ := runName_eq rfl
    rw [Console.runEnd, hrun]
    split
    · exact ((hname.after fun _ => by decide).before fun _ => by decide).before fun _ => by decide
    · have hobjective := Console.unquoted_objective (Notice.runEnd r).objective?
      have hduration : Unquoted (((Notice.runEnd r).duration?.map timeSpan).getD "N/A") := by
        cases (Notice.runEnd r).duration? with
        | none => decide
        | some x => exact unquoted_timeSpan x
      refine ((((hname.after fun _ => ?_).before fun _ => ?_).before fun _ => hobjective).before
        fun _ => ?_).before fun _ => hduration.paint _
      all_goals decide
  | runFailed =>
    refine framed_of_content (.inr rfl) (content_runFailed beside t) ?_ c now
    refine ((hrefl.paint .brightRed).after fun _ => by decide).after fun hbeside => ?_
    have htrimmed : Unquoted (FieldValue.trimQuotes beside) := by
      rwa [FieldValue.trimQuotes_of_bare hbeside.bare]
    simp only [unquoted_append]
    exact ⟨⟨⟨by decide, by decide⟩, by decide⟩, by decide, htrimmed⟩

/-- An engine's line that cannot be read is quoted at the end of the error. -/
theorem not_bare_badMessage (line : String) (e : ProtocolError) :
    ¬ Bare (SessionError.badMessage line e).message := by
  have hmessage : (SessionError.badMessage line e).message =
      "protocol error: " ++ e.message ++ " in message " ++ quoted line := rfl
  have hquote : "\"".toList = ['"'] := rfl
  rintro ⟨-, hlast⟩
  rw [hmessage, quoted, ← String.append_assoc, String.toList_append, hquote] at hlast
  exact hlast List.getLast?_concat

/-- What the console makes of a text that a notice brings: a line that has the text without the quotes
at its ends. So it has the text as it is when there are no such quotes, and, if nothing else on the
line can have one, only then. -/
theorem shown_line (h : n.Bears t beside) (c : Console) (now : Float) :
    ∃ line, (c.show? now n).2 = some line ∧
      (FieldValue.trimQuotes t).toList <:+: line.toList ∧
      (Bare t → t.toList <:+: line.toList) ∧
      (Unquoted beside → t.toList <:+: line.toList → Bare t) := by
  obtain ⟨line, hline, hframes⟩ := h.framed c now
  refine ⟨line, hline, hframes.isInfix, fun hbare => ?_, hframes.bare⟩
  have hinfix := hframes.isInfix
  rwa [FieldValue.trimQuotes_of_bare hbare] at hinfix

/-- Quotes inside the reason of a stop are shown. -/
theorem shown_line_quotesInside :
    let reason := "the \"best\" bound is met"
    Bears (.stopRequested reason) reason "" ∧
      ∃ line, (Console.blank.show? 0.0 (.stopRequested reason)).2 = some line ∧
        reason.toList <:+: line.toList := by
  intro reason
  have hbears : Bears (.stopRequested reason) reason "" := .stopRequested reason
  obtain ⟨line, hline, -, hbare, -⟩ := shown_line hbears Console.blank 0.0
  exact ⟨hbears, line, hline, hbare (by decide)⟩

/-- The error of a line that cannot be read loses its last character. -/
theorem quoted_line_cut :
    let e := SessionError.badMessage "oops" .unreadable
    e.message = "protocol error: malformed JSON message: not a message in message \"oops\"" ∧
      ∃ line, (Console.blank.show? 0.0 (.engineError .solve e)).2 = some line ∧
        ¬ e.message.toList <:+: line.toList := by
  intro e
  obtain ⟨line, hline, hframes⟩ := (Bears.engineError .solve e).framed Console.blank 0.0
  refine ⟨by decide, line, hline, fun h => ?_⟩
  exact not_bare_badMessage "oops" .unreadable (hframes.bare (by decide) h)

end Notice

end Scheduling
