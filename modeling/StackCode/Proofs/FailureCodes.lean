import StackCode.Command.Run

/-!
# Codes of failures

A failure of the command line is a chain of layers, and an internal code in it comes from a misuse
of a program or from a failed check. Reading arguments, settings, bindings and expressions, and
writing a report, fail with plain texts, complaints and codes of misuses only, so none of them can
be taken for a failed check.
-/

namespace StackCode

/-- A failure in which an internal code does not occur. -/
def Failure.Lacks (code : String) (f : Failure) : Prop := Layer.internal code ∉ f

/-- The layers that can be reached are layers of the failure. -/
theorem Failure.mem_of_mem_reachable {f : Failure} {layer : Layer} (h : layer ∈ f.reachable) :
    layer ∈ f := by
  fun_induction reachable f with
  | case1 => exact h
  | case2 text rest =>
    rw [List.mem_singleton] at h
    subst h
    exact List.mem_cons_self
  | case3 outer cause _ ih =>
    rcases List.mem_cons.mp h with rfl | h
    · exact List.mem_cons_self
    · exact List.mem_cons_of_mem _ (ih h)

/-- A failure is not taken for a code that does not occur in it. -/
theorem Failure.Lacks.hasCode_eq_false {code : String} {f : Failure} (h : f.Lacks code) :
    f.hasCode code = false := by
  refine List.any_eq_false.mpr fun layer hlayer => ?_
  have hmem := mem_of_mem_reachable hlayer
  cases layer with
  | internal c =>
    have hne : c ≠ code := by
      rintro rfl
      exact h hmem
    simpa using hne
  | plain text => simp
  | context text => simp
  | complaint position token text => simp

/-- A computation whose failures lack a code. -/
def FailsWithout {β : Type} (code : String) (x : Except Failure β) : Prop :=
  ∀ f, x = .error f → f.Lacks code

namespace FailsWithout

variable {β γ : Type} {code : String}

/-- A result is no failure. -/
theorem ok (b : β) : FailsWithout code (.ok b) := by
  intro f h
  contradiction

/-- A failure that lacks a code. -/
theorem error {f : Failure} (h : f.Lacks code) : FailsWithout code (.error f : Except Failure β) := by
  rintro g ⟨⟩
  exact h

/-- A computation after another fails as one of the two does. -/
theorem bind {x : Except Failure β} {next : β → Except Failure γ} (hx : FailsWithout code x)
    (hnext : ∀ b, FailsWithout code (next b)) : FailsWithout code (x >>= next) := by
  cases x with
  | error f => exact error (hx f rfl)
  | ok b => exact hnext b

/-- A computation for each element of a list fails as one of them does. -/
theorem mapM {step : β → Except Failure γ} (h : ∀ b, FailsWithout code (step b)) (bs : List β) :
    FailsWithout code (bs.mapM step) := by
  induction bs with
  | nil => exact ok []
  | cons b rest ih =>
    rw [List.mapM_cons]
    exact (h b).bind fun c => ih.bind fun cs => ok (c :: cs)

/-- A computation along a list fails as one of its steps does. -/
theorem foldlM {step : γ → β → Except Failure γ} (h : ∀ c b, FailsWithout code (step c b))
    (c : γ) (bs : List β) : FailsWithout code (bs.foldlM step c) := by
  induction bs generalizing c with
  | nil => exact ok c
  | cons b rest ih =>
    rw [List.foldlM_cons]
    exact (h c b).bind ih

end FailsWithout

/-- The code of a failed check. -/
abbrev checkCode : String := "E4006"

/-- A plain text has no code. -/
theorem plain_lacks (text : String) : Failure.Lacks checkCode [.plain text] := by
  simp [Failure.Lacks]

/-- A plain text in a context has no code. -/
theorem context_lacks (outer text : String) :
    Failure.Lacks checkCode [.context outer, .plain text] := by
  simp [Failure.Lacks]

/-- A misuse is not a failed check. -/
theorem Misuse.failure_lacks (m : Misuse) : m.failure.Lacks checkCode := by
  cases m <;> simp [Failure.Lacks, failure, code, checkCode]

/-- A complaint about an expression is not caused by a failed check. -/
theorem Complaint.cause_lacks (c : Complaint) : c.cause.Lacks checkCode := by
  unfold cause
  split
  · exact plain_lacks _
  · exact Misuse.failure_lacks _
  · exact List.not_mem_nil

/-- A syntax error is not a failed check. -/
theorem SyntaxError.failure_lacks (e : SyntaxError) : e.failure.Lacks checkCode := by
  have hcause := e.complaint.cause_lacks
  simpa [failure, Failure.Lacks] using hcause

/-- Reading a delimiter fails with a plain text. -/
theorem readDelimiter_lacks (text : String) : FailsWithout checkCode (readDelimiter text) := by
  unfold readDelimiter
  split
  · exact .ok _
  · exact .error (plain_lacks _)

/-- Reading a binding fails with a text. -/
theorem readBinding_lacks (pair : String) : FailsWithout checkCode (readBinding pair) := by
  unfold readBinding
  dsimp only
  split
  · exact .error (plain_lacks _)
  · split
    · exact .error (plain_lacks _)
    · split
      · exact .ok _
      · exact .error (context_lacks _ _)

/-- Reading bindings fails with a text. -/
theorem readBindings_lacks (pairs : List String) :
    FailsWithout checkCode (readBindings pairs) := by
  refine .foldlM (fun bindings pair => ?_) [] pairs
  exact (readBinding_lacks pair).bind fun _ => .ok _

/-- A number is written or refused with a plain text. -/
theorem numberJson_lacks (x : Float) : FailsWithout checkCode (numberJson x) := by
  unfold numberJson
  split
  · exact .ok _
  · exact .error (plain_lacks _)

/-- A field of a number is written or refused with a plain text. -/
theorem numberField_lacks (key : String) (omitted : Bool) (x : Float) :
    FailsWithout checkCode (numberField key omitted x) := by
  unfold numberField
  split
  · exact .ok _
  · exact (numberJson_lacks x).bind fun _ => .ok _

/-- A row is written or refused with a plain text. -/
theorem Row.json_lacks (r : Row Float) : FailsWithout checkCode r.json := by
  refine (numberField_lacks "coef" (r.coef == 0) r.coef).bind fun coef => ?_
  exact (numberField_lacks "constant" (r.address == .unused) r.constant).bind fun constant => .ok _

/-- The rows of a program are listed or refused with a misuse. -/
theorem Program.rowsOrFailure_lacks (p : Program Float) :
    FailsWithout checkCode p.rowsOrFailure := by
  unfold rowsOrFailure
  split
  · exact .ok _
  · exact .error (Misuse.failure_lacks _)

/-- A report is written or refused with a text or a misuse. -/
theorem Program.report_lacks (p : Program Float) (terminal : Terminal) (id : String) (colors : Bool)
    (format : String) : FailsWithout checkCode (p.report terminal id colors format) := by
  unfold report
  split
  · exact .ok _
  · exact .ok _
  · exact p.rowsOrFailure_lacks.bind fun _ => .ok _
  · refine p.rowsOrFailure_lacks.bind fun rows => ?_
    have hjson : FailsWithout checkCode (p.json id rows) :=
      (FailsWithout.mapM Row.json_lacks rows).bind fun _ => .ok _
    exact hjson.bind fun _ => .ok _
  · exact .error (plain_lacks _)

/-- Settings are read from a file or refused with a text. -/
theorem settingsFile_lacks (s : Surroundings) (arguments : Arguments) :
    FailsWithout checkCode (settingsFile s arguments) := by
  unfold settingsFile
  dsimp only
  split
  · exact .ok _
  · exact .error (context_lacks _ _)

/-- Arguments are read or refused with a plain text. -/
theorem readFlags_lacks (flags : List Flag) (args : List String) :
    FailsWithout checkCode (readFlags flags args) := by
  unfold readFlags
  split
  · exact .ok _
  · exact .error (plain_lacks _)

/-- A request is read or refused with a plain text. -/
theorem readRequest_lacks (args : List String) : FailsWithout checkCode (readRequest args) := by
  unfold readRequest
  split
  · exact (readFlags_lacks _ _).bind fun _ => .ok _
  · refine (readFlags_lacks _ _).bind fun arguments => ?_
    split
    · exact .ok _
    · exact .error (plain_lacks _)
  · refine (readFlags_lacks _ _).bind fun arguments => ?_
    split
    · exact .ok _
    · exact .error (plain_lacks _)
  · exact .error (plain_lacks _)

end StackCode
