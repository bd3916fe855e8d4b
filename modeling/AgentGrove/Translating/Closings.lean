import AgentGrove.Translating.Lines

namespace AgentGrove.Agents

open Wire

/-- How a CLI tells that a turn has ended. -/
inductive Ending where
  | done
  | failed
deriving DecidableEq

/-- What a value tells of the end of its turn. -/
def Claude.ending (v : Value) : Option Ending :=
  match text "type" v with
  | none => none
  | some kind =>
    if kind = "result".toList then some (if Claude.isError v then .failed else .done) else none

def Codex.itemEnding (item : Value) : Option Ending :=
  if text "type" item = some "error".toList then (text "message" item).map (fun _ => .failed) else none

def Codex.ending (v : Value) : Option Ending :=
  match text "type" v with
  | none => none
  | some ty =>
    if ty = "turn.completed".toList then some .done
    else if ty = "turn.failed".toList ∨ ty = "error".toList then some .failed
    else if ty = "item.started".toList ∨ ty = "item.completed".toList then
      (v.get "item".toList).bind Codex.itemEnding
    else none

/-- Opencode tells of failures only. -/
def Opencode.ending (v : Value) : Option Ending :=
  match text "type" v with
  | none => none
  | some kind => if kind = "error".toList then some .failed else none

def Kiro.ending (v : Value) : Option Ending :=
  match text "type" v with
  | none => none
  | some ty =>
    if ty = "runFinished".toList then some .done
    else if ty = "runError".toList then some .failed
    else none

def ProviderId.ending : ProviderId → Value → Option Ending
  | .claude => Claude.ending
  | .codex => Codex.ending
  | .opencode => Opencode.ending
  | .kimi => fun _ => none
  | .kiro => Kiro.ending

def isDone : AgentEvent → Bool
  | .done _ _ => true
  | _ => false

/-- Just one event ends the turn, and it is the last. -/
def EndsOnce (evs : List AgentEvent) : Prop :=
  ∃ before last, evs = before ++ [last] ∧ last.terminal = true ∧ ∀ e ∈ before, e.terminal = false

/-- The CLI has told of a completion: with a line of its own, or, of opencode and kimi, by
its exit. -/
def Completed (parse : Text → Option Value) (p : ProviderId) (run : CliRun) : Prop :=
  (∃ v ∈ run.values parse, p.ending v = some .done) ∨
    ((p = .opencode ∨ p = .kimi) ∧ run.status.success = true)

/-- What the events of a turn come to, in whatever order the outputs are read. -/
def ClosesOnce (parse : Text → Option Value) (p : ProviderId) (run : CliRun) : Prop :=
  ∀ evs, Sends parse p run evs →
    EndsOnce evs ∧ (Completed parse p run → ∃ e ∈ evs, isDone e = true)

/-- Nothing comes of the values after one that tells of the end. -/
def LastWord (p : ProviderId) (T : Translator) : List Value → T.State → Prop
  | [], _ => True
  | v :: vs, s =>
    ((p.ending v).isSome → (T.run vs (T.translate v s).2).1 = []) ∧ LastWord p T vs (T.translate v s).2

/-- When the events of a turn end just once. -/
def Clean (parse : Text → Option Value) (p : ProviderId) (run : CliRun) : Prop :=
  let T := p.translator parse
  let vs := run.values parse
  match p with
  | .codex | .kiro => LastWord p T vs T.start
  | .opencode => LastWord p T vs T.start ∧ (run.status.success → ∀ v ∈ vs, p.ending v = none)
  | .kimi => True
  | .claude =>
    (fullLines run.stderr = [] ∧ LastWord p T vs T.start ∧
        ((∃ v ∈ vs, (p.ending v).isSome) ↔ run.status.success = true)) ∨
      ((fullLines run.stderr).length = 1 ∧ T.events vs = [] ∧ run.status.success = true)

section Lines

variable {parse : Text → Option Value} {p : ProviderId} {v : Value} {vs : List Value}
  {evs evs' : List AgentEvent} {e : AgentEvent} {how : Ending}

/-- No event ends the turn. -/
def Open (evs : List AgentEvent) : Prop := ∀ e ∈ evs, e.terminal = false

/-- The one event of a value that tells of the end. -/
def Closer (how : Ending) (evs : List AgentEvent) : Prop :=
  ∃ e, evs = [e] ∧ e.terminal = true ∧ isDone e = decide (how = .done)

/-- How the events of a value go with what it tells of the end. -/
def Closing (told : Option Ending) (evs : List AgentEvent) : Prop :=
  match told with
  | some how => Closer how evs
  | none => Open evs

theorem open_of_plain (h : Plain evs) : Open evs := by
  intro e he
  have hplain := h e he
  cases e <;> simp_all [plain, AgentEvent.terminal]

theorem open_nil : Open [] := by simp [Open]

theorem open_one (h : e.terminal = false) : Open [e] := by simpa [Open] using h

theorem open_flatMap {α : Type} {f : α → List AgentEvent} {xs : List α} (h : ∀ x ∈ xs, Open (f x)) :
    Open (xs.flatMap f) := by
  intro e he
  obtain ⟨x, hx, hm⟩ := List.mem_flatMap.mp he
  exact h x hx e hm

theorem Claude.closing_result (v : Value) :
    Closer (if Claude.isError v then .failed else .done) (Claude.translateResult v) := by
  unfold Claude.translateResult
  split
  · exact ⟨_, rfl, rfl, rfl⟩
  · exact ⟨_, rfl, rfl, rfl⟩

theorem Claude.open_block (block : Value) : Open (Claude.translateBlock block) := by
  unfold Claude.translateBlock
  split
  · exact open_one rfl
  split
  · exact open_of_plain (plain_optional _ .thinking fun _ => rfl)
  · exact open_nil

theorem Claude.open_toolResult (block : Value) : Open (Claude.translateToolResult block) := by
  unfold Claude.translateToolResult
  split
  · exact open_one rfl
  · exact open_nil

theorem Claude.closing_line (v : Value) : Closing (Claude.ending v) (Claude.translate v) := by
  unfold Claude.translate Claude.ending
  cases text "type" v with
  | none => exact open_nil
  | some kind =>
    dsimp only
    by_cases hresult : kind = "result".toList
    · have hother : kind ≠ "system".toList ∧ kind ≠ "stream_event".toList ∧ kind ≠ "assistant".toList ∧
          kind ≠ "user".toList := by
        subst hresult
        simp
      rw [if_pos hresult, if_neg hother.1, if_neg hother.2.1, if_neg hother.2.2.1, if_neg hother.2.2.2,
        if_pos hresult]
      exact Claude.closing_result v
    · rw [if_neg hresult, if_neg hresult]
      show Open _
      split
      · exact open_of_plain (Claude.system_plain v)
      split
      · exact open_of_plain (Claude.streamEvent_plain v)
      split
      · exact open_flatMap fun block _ => Claude.open_block block
      split
      · exact open_flatMap fun block _ => Claude.open_toolResult block
      · exact open_nil

theorem Codex.closing_item (envelope : Text) (item : Value) (names : ToolNames) :
    Closing (Codex.itemEnding item) (Codex.translateItem envelope (some item) names).1 := by
  unfold Codex.translateItem Codex.itemEnding
  dsimp only
  by_cases hkind : text "type" item = some "error".toList
  · rw [if_pos hkind, hkind, Option.getD_some, if_neg (by simp), if_neg (by simp), if_neg (by simp), if_pos rfl]
    cases text "message" item with
    | none => exact open_nil
    | some m => exact ⟨_, rfl, rfl, rfl⟩
  · have hother : (text "type" item).getD [] ≠ "error".toList := by
      cases hitem : text "type" item with
      | none => simp
      | some kind =>
        rw [hitem] at hkind
        exact fun he => hkind (congrArg some he)
    rw [if_neg hkind, if_neg hother]
    show Open _
    split
    · split
      · exact open_one rfl
      · exact open_nil
    split
    · split
      · exact open_one rfl
      · exact open_nil
    split
    · split
      · exact open_one rfl
      · exact open_one rfl
    · exact open_nil

theorem Codex.closing_line (v : Value) (names : ToolNames) :
    Closing (Codex.ending v) (Codex.translate v names).1 := by
  unfold Codex.translate Codex.ending
  cases text "type" v with
  | none => exact open_nil
  | some ty =>
    dsimp only
    by_cases hthread : ty = "thread.started".toList
    · subst hthread
      rw [if_pos rfl, if_neg (by simp), if_neg (by simp), if_neg (by simp)]
      show Open _
      split
      · exact open_one rfl
      · exact open_nil
    rw [if_neg hthread]
    by_cases hitem : ty = "item.started".toList ∨ ty = "item.completed".toList
    · have hother : ty ≠ "turn.completed".toList ∧ ¬ (ty = "turn.failed".toList ∨ ty = "error".toList) := by
        rcases hitem with rfl | rfl <;> simp
      rw [if_pos hitem, if_neg hother.1, if_neg hother.2, if_pos hitem]
      cases v.get "item".toList with
      | none => exact open_nil
      | some item => exact Codex.closing_item ty item names
    rw [if_neg hitem, if_neg hitem]
    by_cases hcompleted : ty = "turn.completed".toList
    · rw [if_pos hcompleted, if_pos hcompleted]
      exact ⟨_, rfl, rfl, rfl⟩
    rw [if_neg hcompleted, if_neg hcompleted]
    by_cases hfailed : ty = "turn.failed".toList
    · rw [if_pos hfailed, if_pos (.inl hfailed)]
      exact ⟨_, rfl, rfl, rfl⟩
    rw [if_neg hfailed]
    by_cases herror : ty = "error".toList
    · rw [if_pos herror, if_pos (.inr herror)]
      exact ⟨_, rfl, rfl, rfl⟩
    · rw [if_neg herror, if_neg (not_or.mpr ⟨hfailed, herror⟩)]
      exact open_nil

theorem Opencode.closing_line (v : Value) (s : Opencode.State) :
    Closing (Opencode.ending v) (Opencode.translate v s).1 := by
  unfold Opencode.translate Opencode.ending
  cases text "type" v with
  | none => exact open_nil
  | some kind =>
    dsimp only
    by_cases herror : kind = "error".toList
    · subst herror
      rw [if_pos rfl, if_neg (by simp), if_neg (by simp), if_neg (by simp), if_neg (by simp), if_pos rfl]
      exact ⟨_, rfl, rfl, rfl⟩
    · rw [if_neg herror, if_neg herror]
      show Open _
      split
      · split
        · exact open_nil
        split
        · exact open_nil
        · exact open_one rfl
      split
      · exact open_of_plain (Opencode.text_plain v s)
      split
      · split
        · exact open_one rfl
        · exact open_nil
      split
      · unfold Opencode.translateTool
        split
        · exact open_nil
        · dsimp only
          split
          · exact open_one rfl
          · exact open_one rfl
      · exact open_nil

theorem Kimi.open_line (v : Value) (names : ToolNames) : Open (Kimi.translate parse v names).1 := by
  unfold Kimi.translate
  split
  · exact open_nil
  split
  · intro e he
    rcases List.mem_append.mp he with he | he
    · exact open_flatMap (fun part _ => open_of_plain (Kimi.part_plain part)) e he
    · obtain ⟨call, -, rfl⟩ := List.mem_map.mp he
      rfl
  split
  · exact open_one rfl
  · exact open_nil

theorem Kiro.open_update (update : Option Value) : Open (Kiro.translateSessionUpdate update) := by
  unfold Kiro.translateSessionUpdate
  split
  · exact open_nil
  dsimp only
  split
  · exact open_of_plain (plain_optional _ .token fun _ => rfl)
  split
  · exact open_of_plain (plain_optional _ .thinking fun _ => rfl)
  split
  · exact open_one rfl
  split
  · split
    · exact open_one rfl
    · exact open_nil
  · exact open_nil

theorem Kiro.closing_line (v : Value) (announced : Bool) :
    Closing (Kiro.ending v) (Kiro.translate v announced).1 := by
  unfold Kiro.translate Kiro.ending
  cases text "type" v with
  | none => exact open_nil
  | some ty =>
    dsimp only
    by_cases hfinished : ty = "runFinished".toList
    · subst hfinished
      rw [if_pos rfl, if_neg (by simp), if_neg (by simp), if_pos rfl]
      exact ⟨_, rfl, rfl, rfl⟩
    by_cases herror : ty = "runError".toList
    · subst herror
      rw [if_neg (by simp), if_pos rfl, if_neg (by simp), if_neg (by simp), if_neg (by simp), if_pos rfl]
      exact ⟨_, rfl, rfl, rfl⟩
    rw [if_neg hfinished, if_neg herror, if_neg hfinished, if_neg herror]
    show Open _
    split
    · split
      · exact open_nil
      split
      · exact open_one rfl
      · exact open_nil
    split
    · exact Kiro.open_update _
    · exact open_nil

/-- Whatever a translator keeps, a value that tells of the end becomes one event that ends the
turn, and any other none. -/
theorem closing_translate (p : ProviderId) (v : Value) (s : (p.translator parse).State) :
    Closing (p.ending v) ((p.translator parse).translate v s).1 := by
  cases p with
  | claude => exact Claude.closing_line v
  | codex => exact Codex.closing_line v s
  | opencode => exact Opencode.closing_line v s
  | kimi => exact Kimi.open_line v s
  | kiro => exact Kiro.closing_line v s

/-- No event stands after one that ends the turn. -/
def Sole (evs : List AgentEvent) : Prop :=
  ∀ before e after, evs = before ++ e :: after → e.terminal = true → after = []

theorem sole_nil : Sole [] := by
  intro before e after h
  simp at h

theorem sole_cons_open (h : e.terminal = false) : Sole (e :: evs) ↔ Sole evs := by
  refine ⟨fun hs before e' after heq => hs (e :: before) e' after (by rw [heq]; rfl), ?_⟩
  intro hs before e' after heq ht
  cases before with
  | nil =>
    rw [(List.cons.inj heq).1, ht] at h
    cases h
  | cons _ before => exact hs before e' after (List.cons.inj heq).2 ht

theorem sole_append_open (h : Open evs) : Sole (evs ++ evs') ↔ Sole evs' := by
  induction evs with
  | nil => rfl
  | cons e evs ih =>
    rw [List.cons_append, sole_cons_open (h e (List.mem_cons_self ..))]
    exact ih fun e' he' => h e' (List.mem_cons_of_mem _ he')

theorem sole_of_open (h : Open evs) : Sole evs := by
  have hsole := (sole_append_open h).mpr sole_nil
  rwa [List.append_nil] at hsole

theorem sole_closer (h : e.terminal = true) : Sole (e :: evs) ↔ evs = [] := by
  refine ⟨fun hs => hs [] e evs rfl h, ?_⟩
  rintro rfl before e' after heq -
  cases before with
  | nil => exact (List.cons.inj heq).2.symm
  | cons _ before => simp at heq

/-- What comes of an output ends the turn once at most just if nothing comes after the first
value that tells of the end. -/
theorem sole_run (p : ProviderId) (vs : List Value) (s : (p.translator parse).State) :
    Sole ((p.translator parse).run vs s).1 ↔ LastWord p (p.translator parse) vs s := by
  induction vs generalizing s with
  | nil => exact iff_of_true sole_nil trivial
  | cons v vs ih =>
    have hline := closing_translate p v s
    rw [Translator.run, LastWord]
    dsimp only
    cases htold : p.ending v with
    | none =>
      rw [htold] at hline
      rw [sole_append_open hline, ih]
      simp
    | some how =>
      rw [htold] at hline
      obtain ⟨e, he, hterminal, -⟩ := hline
      rw [he, List.singleton_append, sole_closer hterminal]
      refine ⟨fun hnil => ⟨fun _ => hnil, ?_⟩, fun h => h.1 rfl⟩
      rw [← ih, hnil]
      exact sole_nil

/-- The events that end the turn come of the values that tell of the end. -/
theorem terminal_run (p : ProviderId) (vs : List Value) (s : (p.translator parse).State) :
    (∃ e ∈ ((p.translator parse).run vs s).1, e.terminal = true) ↔ ∃ v ∈ vs, (p.ending v).isSome = true := by
  induction vs generalizing s with
  | nil => simp [Translator.run]
  | cons v vs ih =>
    have hline := closing_translate p v s
    rw [Translator.run]
    dsimp only
    simp only [List.mem_append, or_and_right, exists_or, List.mem_cons, ih, exists_eq_left]
    refine or_congr_left ?_
    cases htold : p.ending v with
    | none =>
      rw [htold] at hline
      refine iff_of_false ?_ (by simp)
      rintro ⟨e, he, ht⟩
      rw [hline e he] at ht
      cases ht
    | some how =>
      rw [htold] at hline
      obtain ⟨e, he, hterminal, -⟩ := hline
      exact iff_of_true ⟨e, by rw [he]; exact List.mem_singleton.mpr rfl, hterminal⟩ rfl

theorem terminal_of_isDone {e : AgentEvent} (h : isDone e = true) : e.terminal = true := by
  cases e with
  | done => rfl
  | _ => cases h

theorem done_run (p : ProviderId) (vs : List Value) (s : (p.translator parse).State) :
    (∃ e ∈ ((p.translator parse).run vs s).1, isDone e = true) ↔ ∃ v ∈ vs, p.ending v = some .done := by
  induction vs generalizing s with
  | nil => simp [Translator.run]
  | cons v vs ih =>
    have hline := closing_translate p v s
    rw [Translator.run]
    dsimp only
    simp only [List.mem_append, or_and_right, exists_or, List.mem_cons, ih, exists_eq_left]
    refine or_congr_left ?_
    cases htold : p.ending v with
    | none =>
      rw [htold] at hline
      refine iff_of_false ?_ (by simp)
      rintro ⟨e, he, hd⟩
      have hopen := hline e he
      rw [terminal_of_isDone hd] at hopen
      cases hopen
    | some how =>
      rw [htold] at hline
      obtain ⟨e, he, -, hdone⟩ := hline
      simp [he, hdone]

theorem endsOnce_iff : EndsOnce evs ↔ Sole evs ∧ ∃ e ∈ evs, e.terminal = true := by
  refine ⟨?_, ?_⟩
  · rintro ⟨before, last, rfl, hlast, hbefore⟩
    exact ⟨(sole_append_open hbefore).mpr ((sole_closer hlast).mpr rfl), last, by simp, hlast⟩
  · rintro ⟨hsole, e, he, hterminal⟩
    obtain ⟨before, after, rfl⟩ := List.append_of_mem he
    obtain rfl := hsole before e after rfl hterminal
    refine ⟨before, e, rfl, hterminal, fun e' he' => ?_⟩
    rw [Bool.eq_false_iff]
    intro ht
    obtain ⟨b, a, rfl⟩ := List.append_of_mem he'
    have hnil := hsole b e' (a ++ [e]) (by simp) ht
    simp at hnil

/-- An output that ends no turn, and then the closing event. -/
theorem endsOnce_concat (hlast : e.terminal = true) : EndsOnce (evs ++ [e]) ↔ Open evs := by
  refine ⟨?_, fun h => ⟨evs, e, rfl, hlast, h⟩⟩
  rintro ⟨before, last, heq, -, hbefore⟩
  rw [(List.append_inj' heq rfl).1]
  exact hbefore

theorem open_iff : Open evs ↔ ¬ ∃ e ∈ evs, e.terminal = true := by
  simp [Open]

theorem interleaves_nil {xs zs : List AgentEvent} (h : Interleaves xs [] zs) : zs = xs := by
  generalize hys : ([] : List AgentEvent) = ys at h
  induction h with
  | nil => rfl
  | left a _ ih => rw [ih hys]
  | right a _ _ => cases hys

theorem interleaves_nil_left {ys zs : List AgentEvent} (h : Interleaves [] ys zs) : zs = ys := by
  generalize hxs : ([] : List AgentEvent) = xs at h
  induction h with
  | nil => rfl
  | left a _ _ => cases hxs
  | right a _ ih => rw [ih hxs]

theorem interleaves_after (xs ys : List AgentEvent) : Interleaves xs ys (ys ++ xs) := by
  induction ys with
  | nil =>
    induction xs with
    | nil => exact .nil
    | cons x xs ih => exact .left x ih
  | cons y ys ih => exact .right y ih

theorem interleaves_mem {xs ys zs : List AgentEvent} (h : Interleaves xs ys zs) :
    e ∈ zs ↔ e ∈ xs ∨ e ∈ ys := by
  induction h with
  | nil => simp
  | left a _ ih => simp [ih, or_assoc]
  | right a _ ih => simp [ih, or_left_comm]

/-- A side of which nothing is asked. -/
theorem interleaves_flatMap {α β : Type} {xs ys zs : List α} {f : α → List β} (h : Interleaves xs ys zs)
    (hy : ∀ y ∈ ys, f y = []) : zs.flatMap f = xs.flatMap f := by
  induction h with
  | nil => rfl
  | left a _ ih => rw [List.flatMap_cons, List.flatMap_cons, ih hy]
  | right a _ ih => rw [List.flatMap_cons, hy a List.mem_cons_self, List.nil_append,
      ih fun y hm => hy y (List.mem_cons_of_mem _ hm)]

variable {run : CliRun}

/-- Nothing comes of the standard error. -/
theorem sends_iff (h : stderrEvents run p = []) :
    Sends parse p run evs ↔ evs = run.stdoutEvents parse p ++ closing parse run p := by
  unfold Sends
  rw [h]
  refine ⟨?_, fun he => ⟨_, interleaves_after _ _, he⟩⟩
  rintro ⟨mid, hmid, rfl⟩
  rw [interleaves_nil hmid]

theorem closesOnce_iff (h : stderrEvents run p = []) : ClosesOnce parse p run ↔
    EndsOnce (run.stdoutEvents parse p ++ closing parse run p) ∧
      (Completed parse p run → ∃ e ∈ run.stdoutEvents parse p ++ closing parse run p, isDone e = true) := by
  unfold ClosesOnce
  simp only [sends_iff h, forall_eq]

/-- The events that come of the standard output, and what they tell. -/
theorem sole_stdout : Sole (run.stdoutEvents parse p) ↔
    LastWord p (p.translator parse) (run.values parse) (p.translator parse).start :=
  sole_run p _ _

theorem terminal_stdout : (∃ e ∈ run.stdoutEvents parse p, e.terminal = true) ↔
    ∃ v ∈ run.values parse, (p.ending v).isSome = true :=
  terminal_run p _ _

theorem done_stdout : (∃ e ∈ run.stdoutEvents parse p, isDone e = true) ↔
    ∃ v ∈ run.values parse, p.ending v = some .done :=
  done_run p _ _

/-- A provider that closes the turn itself only if its output has not. -/
theorem closesOnce_trusting {c : AgentEvent} (hc : c.terminal = true) (hstderr : stderrEvents run p = [])
    (hclosing : closing parse run p =
      if (run.stdoutEvents parse p).any AgentEvent.terminal then [] else [c])
    (hown : p ≠ .opencode ∧ p ≠ .kimi) :
    ClosesOnce parse p run ↔ LastWord p (p.translator parse) (run.values parse) (p.translator parse).start := by
  rw [closesOnce_iff hstderr, ← sole_stdout, hclosing]
  have hdone : Completed parse p run → ∃ e ∈ run.stdoutEvents parse p, isDone e = true := by
    rintro (h | ⟨h, -⟩)
    · exact done_stdout.mpr h
    · exact absurd h (not_or.mpr hown)
  split
  · rename_i hany
    rw [List.append_nil, endsOnce_iff]
    refine ⟨fun h => h.1.1, fun h => ⟨⟨h, List.any_eq_true.mp hany⟩, hdone⟩⟩
  · rename_i hnone
    have hopen : Open (run.stdoutEvents parse p) :=
      open_iff.mpr fun h => hnone (List.any_eq_true.mpr h)
    refine iff_of_true ⟨(endsOnce_concat hc).mpr hopen, fun h => ?_⟩ ?_
    · obtain ⟨e, he, hd⟩ := hdone h
      exact ⟨e, List.mem_append_left _ he, hd⟩
    · exact sole_of_open hopen

theorem Codex.closesOnce : ClosesOnce parse .codex run ↔ Clean parse .codex run := by
  refine closesOnce_trusting (c := if run.status.success then .done none none
    else .error (failure "codex" (cut (tail (keptByCodex (fullLines run.stderr)))) run.status))
    ?_ rfl ?_ ⟨by simp, by simp⟩
  · split <;> rfl
  · simp only [closing]
    split
    · rfl
    · split <;> rfl

theorem Kiro.closesOnce : ClosesOnce parse .kiro run ↔ Clean parse .kiro run := by
  refine closesOnce_trusting (c := if run.status.success then .done none none
    else .error (failure "kiro-cli" (cut (tail ((fullLines run.stderr).map trim))) run.status))
    ?_ rfl ?_ ⟨by simp, by simp⟩
  · split <;> rfl
  · simp only [closing]
    split
    · rfl
    · split <;> rfl

/-- Opencode never tells that it is done. -/
theorem Opencode.never_done (vs : List Value) : ¬ ∃ v ∈ vs, ProviderId.opencode.ending v = some .done := by
  rintro ⟨v, -, hv⟩
  simp only [ProviderId.ending, Opencode.ending] at hv
  split at hv
  · cases hv
  · split at hv <;> cases hv

/-- Of opencode's events only errors end the turn. -/
theorem Opencode.error_of_terminal (he : e ∈ run.stdoutEvents parse .opencode)
    (ht : e.terminal = true) : isError e = true := by
  cases e with
  | done result cost => exact absurd (done_stdout.mp ⟨_, he, rfl⟩) (Opencode.never_done _)
  | error message => rfl
  | _ => cases ht

theorem Opencode.closesOnce : ClosesOnce parse .opencode run ↔ Clean parse .opencode run := by
  rw [closesOnce_iff rfl]
  unfold Clean
  dsimp only
  rw [← sole_stdout]
  cases hsuccess : run.status.success with
  | true =>
    have hclosing : closing parse run .opencode = [.done none none] := by simp [closing, hsuccess]
    have hnone : (∀ v ∈ run.values parse, ProviderId.opencode.ending v = none) ↔
        Open (run.stdoutEvents parse .opencode) := by
      rw [open_iff, terminal_stdout]
      simp
    rw [hclosing, endsOnce_concat rfl, hnone]
    exact ⟨fun h => ⟨sole_of_open h.1, fun _ => h.1⟩,
      fun h => ⟨h.2 rfl, fun _ => ⟨.done none none, by simp, rfl⟩⟩⟩
  | false =>
    have hnot : ¬ Completed parse .opencode run := by
      rintro (h | ⟨-, h⟩)
      · exact Opencode.never_done _ h
      · rw [hsuccess] at h
        cases h
    simp only [hnot, false_imp_iff, and_true, Bool.false_eq_true]
    simp only [closing, hsuccess, Bool.false_eq_true, if_false]
    split
    · rename_i hany
      obtain ⟨e, he, herror⟩ := List.any_eq_true.mp hany
      rw [List.append_nil, endsOnce_iff]
      exact and_iff_left ⟨e, he, by cases e <;> simp_all [isError, AgentEvent.terminal]⟩
    · rename_i hnone
      have hopen : Open (run.stdoutEvents parse .opencode) :=
        open_iff.mpr fun ⟨e, he, ht⟩ =>
          hnone (List.any_eq_true.mpr ⟨e, he, Opencode.error_of_terminal he ht⟩)
      exact iff_of_true ((endsOnce_concat rfl).mpr hopen) (sole_of_open hopen)

/-- Kimi's outputs tell of no end, so that its exit alone does. -/
theorem Kimi.closesOnce : ClosesOnce parse .kimi run := by
  rintro evs ⟨mid, hmid, rfl⟩
  have hopen : Open mid := by
    intro e he
    rcases (interleaves_mem hmid).mp he with he | he
    · rw [Bool.eq_false_iff]
      intro ht
      obtain ⟨v, -, hv⟩ := terminal_stdout.mp ⟨e, he, ht⟩
      cases hv
    · simp only [stderrEvents] at he
      split at he
      · rw [List.mem_singleton.mp he]
        rfl
      · cases he
  cases hsuccess : run.status.success with
  | true =>
    have hclosing : closing parse run .kimi = [.done none none] := by simp [closing, hsuccess]
    rw [hclosing]
    exact ⟨(endsOnce_concat rfl).mpr hopen, fun _ => ⟨.done none none, by simp, rfl⟩⟩
  | false =>
    have hclosing : closing parse run .kimi = [.error (Kimi.message parse run)] := by simp [closing, hsuccess]
    rw [hclosing]
    refine ⟨(endsOnce_concat rfl).mpr hopen, ?_⟩
    rintro (⟨v, -, hv⟩ | ⟨-, h⟩)
    · cases hv
    · rw [hsuccess] at h
      cases h

/-- Claude's standard error ends the turn with every line of it. -/
theorem Claude.closesOnce_loud {line : Text} {lines : List Text}
    (hstderr : fullLines run.stderr = line :: lines) : ClosesOnce parse .claude run ↔
      lines = [] ∧ run.stdoutEvents parse .claude = [] ∧ run.status.success = true := by
  have hevents : stderrEvents run .claude =
      .error (trim line) :: lines.map (fun l => .error (trim l)) := by
    simp only [stderrEvents, hstderr, List.map_cons]
  refine ⟨fun h => ?_, ?_⟩
  · have hends := (h _ ⟨_, interleaves_after _ _, rfl⟩).1
    rw [hevents, List.cons_append, List.cons_append, endsOnce_iff, sole_closer rfl] at hends
    have hnil := hends.1
    simp only [List.append_eq_nil_iff, List.map_eq_nil_iff, closing] at hnil
    refine ⟨hnil.1.1, hnil.1.2, ?_⟩
    by_contra hfailed
    rw [if_neg hfailed] at hnil
    cases hnil.2
  · rintro ⟨rfl, hout, hsuccess⟩ evs ⟨mid, hmid, rfl⟩
    rw [hout, hevents] at hmid
    obtain rfl := interleaves_nil_left hmid
    have hclosing : closing parse run .claude = [] := by simp [closing, hsuccess]
    rw [hclosing, List.append_nil]
    refine ⟨⟨[], _, rfl, rfl, open_nil⟩, ?_⟩
    rintro (h | ⟨h, -⟩)
    · obtain ⟨e, he, -⟩ := done_stdout.mpr h
      rw [hout] at he
      cases he
    · simp at h

theorem Claude.closesOnce_quiet (hstderr : fullLines run.stderr = []) : ClosesOnce parse .claude run ↔
    Sole (run.stdoutEvents parse .claude) ∧
      ((∃ e ∈ run.stdoutEvents parse .claude, e.terminal = true) ↔ run.status.success = true) := by
  have hevents : stderrEvents run .claude = [] := by
    simp only [stderrEvents, hstderr, List.map_nil]
  have hdone : Completed parse .claude run → ∃ e ∈ run.stdoutEvents parse .claude, isDone e = true := by
    rintro (h | ⟨h, -⟩)
    · exact done_stdout.mpr h
    · simp at h
  rw [closesOnce_iff hevents]
  cases hsuccess : run.status.success with
  | true =>
    have hclosing : closing parse run .claude = [] := by simp [closing, hsuccess]
    rw [hclosing, List.append_nil, endsOnce_iff]
    exact ⟨fun h => ⟨h.1.1, iff_of_true h.1.2 rfl⟩, fun h => ⟨⟨h.1, h.2.mpr rfl⟩, hdone⟩⟩
  | false =>
    have hclosing : closing parse run .claude = [.error (exited "claude" run.status)] := by
      simp [closing, hsuccess]
    rw [hclosing, endsOnce_concat rfl, open_iff]
    refine ⟨fun h => ⟨sole_of_open (open_iff.mpr h.1), iff_of_false h.1 (by simp)⟩,
      fun h => ⟨fun hany => ?_, fun hc => ?_⟩⟩
    · cases h.2.mp hany
    · obtain ⟨e, he, hd⟩ := hdone hc
      exact ⟨e, List.mem_append_left _ he, hd⟩

theorem Claude.closesOnce : ClosesOnce parse .claude run ↔ Clean parse .claude run := by
  unfold Clean
  dsimp only
  rw [← sole_stdout, ← terminal_stdout]
  cases hstderr : fullLines run.stderr with
  | nil =>
    rw [Claude.closesOnce_quiet hstderr]
    simp
  | cons line lines =>
    rw [Claude.closesOnce_loud hstderr]
    simp [CliRun.stdoutEvents]

end Lines

/-- In whatever order the outputs are read, the events of a turn end with just one that ends it
just if the turn is clean. -/
theorem closes_once_iff (parse : Text → Option Value) (p : ProviderId) (run : CliRun) :
    ClosesOnce parse p run ↔ Clean parse p run := by
  cases p with
  | claude => exact Claude.closesOnce
  | codex => exact Codex.closesOnce
  | opencode => exact Opencode.closesOnce
  | kimi => exact iff_of_true Kimi.closesOnce trivial
  | kiro => exact Kiro.closesOnce

/-- An error that a turn of codex recovers from, and the end of the turn. -/
def warning : Value :=
  .object [("item".toList, .object [("message".toList, .string "retrying".toList),
      ("type".toList, .string "error".toList)]), ("type".toList, .string "item.completed".toList)]

def turnCompleted : Value := .object [("type".toList, .string "turn.completed".toList)]

def recovered : CliRun where
  stdout := [some warning.print, some turnCompleted.print]
  stderr := []
  status := ⟨true, "exit status: 0".toList⟩

/-- The parser on the lines of that turn. -/
def parseRecovered (line : Text) : Option Value :=
  [warning, turnCompleted].find? (fun v => v.print = line)

theorem recovered_ends_twice : ¬ ∀ (parse : Text → Option Value) (p : ProviderId) (run : CliRun),
    ClosesOnce parse p run := by
  intro hall
  have hevents : recovered.stdoutEvents parseRecovered .codex ++ closing parseRecovered recovered .codex =
      [.error "retrying".toList, .done none none] := by decide
  have hends := (hall parseRecovered .codex recovered _ ((sends_iff rfl).mpr rfl)).1
  rw [hevents, endsOnce_iff, sole_closer rfl] at hends
  cases hends.1

end AgentGrove.Agents
