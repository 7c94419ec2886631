import DurableTask.Protocol.Summary

/-! # What a summary tells

The summary of at most ten events can be read back: it shows how many they are,
the name of each and the id that each carries itself. So two histories with one
summary differ at most in the tasks that their completions refer to, and in
whether a sub-orchestration completed or failed.
-/

namespace DurableTask

variable {a b e : RecordedEvent} {list list' : List RecordedEvent}

def eventTypeNames : List String :=
  ["ExecutionStarted", "ExecutionCompleted", "ExecutionTerminated", "TaskScheduled",
    "TaskCompleted", "TaskFailed", "SubOrchestrationInstanceCreated",
    "SubOrchestrationInstanceFailed", "SubOrchestrationInstanceFailed", "TimerCreated",
    "TimerFired", "OrchestratorStarted", "OrchestratorCompleted", "EventSent", "EventRaised",
    "GenericEvent", "HistoryEvent", "ContinueAsNew", "ExecutionSuspended", "ExecutionResumed"]

theorem getElem?_eventTypeNames (t : EventType) :
    eventTypeNames[t.ctorIdx]? = some t.typeName := by
  cases t <;> rfl

theorem plain_of_mem_eventTypeNames :
    ∀ name ∈ eventTypeNames, name.toList ≠ [] ∧ ',' ∉ name.toList ∧ '#' ∉ name.toList := by
  decide

theorem eventTypeNames_inj : ∀ i < 20, ∀ j < 20, eventTypeNames[i]? = eventTypeNames[j]? →
    i = j ∨ i = 7 ∧ j = 8 ∨ i = 8 ∧ j = 7 := by
  decide

namespace EventType

variable {s t : EventType}

theorem typeName_plain (t : EventType) :
    t.typeName.toList ≠ [] ∧ ',' ∉ t.typeName.toList ∧ '#' ∉ t.typeName.toList :=
  plain_of_mem_eventTypeNames _ (List.mem_of_getElem? (getElem?_eventTypeNames t))

theorem typeName_eq_of_ctorIdx (h : s.ctorIdx = t.ctorIdx) : s.typeName = t.typeName := by
  have hs := getElem?_eventTypeNames s
  rw [h, getElem?_eventTypeNames t] at hs
  exact (Option.some.inj hs).symm

/-- Completions that a summary does not tell apart. -/
inductive Confusable : EventType → EventType → Prop
  | referred {s t : EventType} {i j : Int} (hkind : s.ctorIdx = t.ctorIdx)
    (hs : s.referredId = some i) (ht : t.referredId = some j) (hne : i ≠ j) : Confusable s t
  | completedFailed (so : TaskCompletedEvent) (so' : TaskFailedEvent) :
    Confusable (.subOrchestrationInstanceCompleted so) (.subOrchestrationInstanceFailed so')
  | failedCompleted (so : TaskFailedEvent) (so' : TaskCompletedEvent) :
    Confusable (.subOrchestrationInstanceFailed so) (.subOrchestrationInstanceCompleted so')

theorem Confusable.typeName_eq (h : Confusable s t) : s.typeName = t.typeName := by
  cases h with
  | referred hkind _ _ _ => exact typeName_eq_of_ctorIdx hkind
  | completedFailed so so' => rfl
  | failedCompleted so so' => rfl

theorem Confusable.isSome (h : Confusable s t) :
    s.referredId.isSome = true ∧ t.referredId.isSome = true := by
  cases h with
  | referred _ hs ht _ => simp [hs, ht]
  | completedFailed so so' => exact ⟨rfl, rfl⟩
  | failedCompleted so so' => exact ⟨rfl, rfl⟩

theorem isSome_referredId (t : EventType) :
    t.referredId.isSome = decide (t.ctorIdx ∈ [4, 5, 7, 8, 10]) := by
  cases t <;> rfl

theorem isSome_referredId_eq (h : s.ctorIdx = t.ctorIdx) :
    s.referredId.isSome = t.referredId.isSome := by
  rw [isSome_referredId, isSome_referredId, h]

theorem eq_completed_of_ctorIdx (h : t.ctorIdx = 7) :
    ∃ so, t = .subOrchestrationInstanceCompleted so := by
  cases t with
  | subOrchestrationInstanceCompleted so => exact ⟨so, rfl⟩
  | _ => cases h

theorem eq_failed_of_ctorIdx (h : t.ctorIdx = 8) :
    ∃ so, t = .subOrchestrationInstanceFailed so := by
  cases t with
  | subOrchestrationInstanceFailed so => exact ⟨so, rfl⟩
  | _ => cases h

theorem ctorIdx_eq_or_confusable (h : s.typeName = t.typeName) :
    s.ctorIdx = t.ctorIdx ∨ s.Confusable t := by
  have hs := getElem?_eventTypeNames s
  have ht := getElem?_eventTypeNames t
  obtain hst | ⟨hs7, ht8⟩ | ⟨hs8, ht7⟩ := eventTypeNames_inj _
    (List.getElem?_eq_some_iff.mp hs).1 _ (List.getElem?_eq_some_iff.mp ht).1
    (by rw [hs, ht, h])
  · exact .inl hst
  · obtain ⟨so, rfl⟩ := eq_completed_of_ctorIdx hs7
    obtain ⟨so', rfl⟩ := eq_failed_of_ctorIdx ht8
    exact .inr (.completedFailed so so')
  · obtain ⟨so, rfl⟩ := eq_failed_of_ctorIdx hs8
    obtain ⟨so', rfl⟩ := eq_completed_of_ctorIdx ht7
    exact .inr (.failedCompleted so so')

end EventType

namespace RecordedEvent

/-- The task id of an event: the one to which a completion refers, else the event's own. -/
def taskId (e : RecordedEvent) : Int := (e.eventType.bind EventType.referredId).getD e.eventId

theorem taskId_eq {t : EventType} (h : e.eventType = some t) :
    e.taskId = t.referredId.getD e.eventId := by
  rw [taskId, h, Option.bind_some]

/-- The events are of one kind and about one task. -/
def Same (a b : RecordedEvent) : Prop :=
  a.eventType.map EventType.ctorIdx = b.eventType.map EventType.ctorIdx ∧ a.taskId = b.taskId

/-- The events are completions that a summary does not tell apart. -/
def Confusable (a b : RecordedEvent) : Prop :=
  ∃ s ∈ a.eventType, ∃ t ∈ b.eventType, s.Confusable t

def idPart (id : Int) : String := if id ≥ 0 then "#" ++ toString id else ""

def entry (e : RecordedEvent) : String := getHistoryEventTypeName e ++ idPart e.eventId

theorem toList_idPart_natCast (n : ℕ) :
    (idPart n).toList = '#' :: Nat.toDigits 10 n := by
  have hrepr : toString (n : Int) = n.repr := rfl
  rw [idPart, if_pos (Int.natCast_nonneg n), hrepr, String.toList_append, Nat.toList_repr]
  rfl

theorem toList_idPart_of_neg {id : Int} (h : id < 0) : (idPart id).toList = [] := by
  rw [idPart, if_neg (by omega)]
  rfl

theorem idPart_cases (id : Int) : (idPart id).toList = [] ∧ id < 0 ∨
    ∃ n : ℕ, id = n ∧ (idPart id).toList = '#' :: Nat.toDigits 10 n := by
  obtain h | h := lt_or_ge id 0
  · exact .inl ⟨toList_idPart_of_neg h, h⟩
  · lift id to ℕ using h
    exact .inr ⟨id, rfl, toList_idPart_natCast id⟩

theorem marked_idPart (id : Int) : Text.Marked '#' (idPart id).toList := by
  obtain ⟨h, -⟩ | ⟨n, -, h⟩ := idPart_cases id
  · exact .inl h
  · exact .inr ⟨_, h⟩

theorem comma_not_mem_idPart (id : Int) : ',' ∉ (idPart id).toList := by
  obtain ⟨h, -⟩ | ⟨n, -, h⟩ := idPart_cases id
  · simp [h]
  · rw [h, List.mem_cons, not_or]
    refine ⟨by decide, ?_⟩
    rintro hmem
    exact absurd (Nat.isDigit_of_mem_toDigits (by decide) (by decide) hmem) (by decide)

theorem idPart_inj {i j : Int} (hi : i = -1 ∨ 0 < i) (hj : j = -1 ∨ 0 < j)
    (h : (idPart i).toList = (idPart j).toList) : i = j := by
  obtain ⟨hi0, hineg⟩ | ⟨m, rfl, hm⟩ := idPart_cases i
  · obtain ⟨-, hjneg⟩ | ⟨n, rfl, hn⟩ := idPart_cases j
    · omega
    · rw [hi0, hn] at h
      cases h
  · obtain ⟨hj0, -⟩ | ⟨n, rfl, hn⟩ := idPart_cases j
    · rw [hj0, hm] at h
      cases h
    · rw [hm, hn] at h
      have hmn := congrArg (Nat.ofDigitChars 10 · 0) (List.cons.inj h).2
      simp only [Nat.ofDigitChars_ten_toDigits] at hmn
      exact congrArg _ hmn

theorem toList_entry (e : RecordedEvent) :
    e.entry.toList = (getHistoryEventTypeName e).toList ++ (idPart e.eventId).toList :=
  String.toList_append

end RecordedEvent

namespace Constructed

open RecordedEvent

theorem name_plain (h : Constructed e) : (getHistoryEventTypeName e).toList ≠ [] ∧
    ',' ∉ (getHistoryEventTypeName e).toList ∧ '#' ∉ (getHistoryEventTypeName e).toList := by
  obtain ⟨t, ht, -⟩ := h.shape
  rw [getHistoryEventTypeName, ht]
  exact t.typeName_plain

theorem eventId_cases (h : Constructed e) : e.eventId = -1 ∨ 0 < e.eventId := by
  obtain ⟨t, -, hid | ⟨hid, -⟩⟩ := h.shape
  · exact .inl hid
  · exact .inr hid

theorem getTaskId_eq (h : Constructed e) : getTaskId e = some e.eventId := by
  have hid := h.eventId_cases
  rw [getTaskId, if_pos (by omega)]

theorem entry_plain (h : Constructed e) : e.entry.toList ≠ [] ∧ ',' ∉ e.entry.toList := by
  obtain ⟨hne, hcomma, -⟩ := h.name_plain
  rw [toList_entry]
  constructor
  · rintro hnil
    exact hne (List.append_eq_nil_iff.mp hnil).1
  · rintro hmem
    obtain hmem | hmem := List.mem_append.mp hmem
    · exact hcomma hmem
    · exact comma_not_mem_idPart _ hmem

theorem entry_inj (ha : Constructed a) (hb : Constructed b) (h : a.entry = b.entry) :
    getHistoryEventTypeName a = getHistoryEventTypeName b ∧ a.eventId = b.eventId := by
  have hlist := congrArg String.toList h
  rw [toList_entry, toList_entry] at hlist
  obtain ⟨hname, hid⟩ := Text.append_inj_of_marked ha.name_plain.2.2 hb.name_plain.2.2
    (marked_idPart _) (marked_idPart _) hlist
  exact ⟨String.toList_injective hname, idPart_inj ha.eventId_cases hb.eventId_cases hid⟩

theorem same_or_confusable (ha : Constructed a) (hb : Constructed b) (h : a.entry = b.entry) :
    Same a b ∨ Confusable a b := by
  obtain ⟨hname, hid⟩ := ha.entry_inj hb h
  obtain ⟨s, hs, -⟩ := ha.shape
  obtain ⟨t, ht, -⟩ := hb.shape
  rw [getHistoryEventTypeName, getHistoryEventTypeName, hs, ht] at hname
  obtain hkind | hconf := EventType.ctorIdx_eq_or_confusable hname
  · by_cases href : s.referredId = t.referredId
    · left
      constructor
      · rw [hs, ht, Option.map_some, Option.map_some, hkind]
      · rw [taskId_eq hs, taskId_eq ht, href, hid]
    · right
      refine ⟨s, hs, t, ht, ?_⟩
      have hsome := EventType.isSome_referredId_eq hkind
      cases hsi : s.referredId with
      | none =>
        rw [hsi] at hsome href
        exact absurd (Option.isNone_iff_eq_none.mp (by simpa using hsome.symm)).symm href
      | some i =>
        rw [hsi] at hsome href
        obtain ⟨j, htj⟩ := Option.isSome_iff_exists.mp hsome.symm
        exact .referred hkind hsi htj (by rintro rfl; exact href htj.symm)
  · exact .inr ⟨s, hs, t, ht, hconf⟩

theorem entry_eq_of_same (ha : Constructed a) (hb : Constructed b) (h : Same a b) :
    a.entry = b.entry := by
  obtain ⟨s, hs, hsid⟩ := ha.shape
  obtain ⟨t, ht, htid⟩ := hb.shape
  obtain ⟨hkind, hid⟩ := h
  rw [hs, ht, Option.map_some, Option.map_some, Option.some_inj] at hkind
  rw [taskId_eq hs, taskId_eq ht] at hid
  have hsome := EventType.isSome_referredId_eq hkind
  have heid : a.eventId = b.eventId := by
    obtain hsid | ⟨-, hsid⟩ := hsid
    · obtain htid | ⟨-, htid⟩ := htid
      · rw [hsid, htid]
      · rw [htid, Option.isSome_none] at hsome
        rwa [htid, Option.isSome_eq_false_iff.mp hsome |> Option.isNone_iff_eq_none.mp] at hid
    · rw [hsid, Option.isSome_none] at hsome
      rwa [hsid, Option.isSome_eq_false_iff.mp hsome.symm |> Option.isNone_iff_eq_none.mp] at hid
  rw [entry, entry, getHistoryEventTypeName, getHistoryEventTypeName, hs, ht, heid]
  exact congrArg (· ++ _) (EventType.typeName_eq_of_ctorIdx hkind)

theorem entry_eq_of_confusable (ha : Constructed a) (hb : Constructed b)
    (h : Confusable a b) : a.entry = b.entry := by
  obtain ⟨s, hs, t, ht, hconf⟩ := h
  have hid {e : RecordedEvent} {r : EventType} (he : Constructed e) (hr : e.eventType = some r)
      (href : r.referredId.isSome = true) : e.eventId = -1 := by
    obtain ⟨r', hr', hid | ⟨-, hnone⟩⟩ := he.shape
    · exact hid
    · obtain rfl : r = r' := Option.some.inj (hr.symm.trans hr')
      rw [hnone] at href
      cases href
  rw [entry, entry, getHistoryEventTypeName, getHistoryEventTypeName, hs, ht,
    hid ha hs hconf.isSome.1, hid hb ht hconf.isSome.2]
  exact congrArg (· ++ _) hconf.typeName_eq

theorem entry_eq_iff (ha : Constructed a) (hb : Constructed b) :
    a.entry = b.entry ↔ Same a b ∨ Confusable a b := by
  constructor
  · exact ha.same_or_confusable hb
  · rintro (h | h)
    · exact ha.entry_eq_of_same hb h
    · exact ha.entry_eq_of_confusable hb h

end Constructed

theorem historyListSummaryFrom_cons (he : Constructed e) {i : ℕ} (hi : i < 10) (sb : String) :
    historyListSummaryFrom i sb (e :: list) =
      historyListSummaryFrom (i + 1) ((if i > 0 then sb ++ ", " else sb) ++ e.entry) list := by
  rw [historyListSummaryFrom, if_neg (Nat.not_le.mpr hi), he.getTaskId_eq, RecordedEvent.entry,
    RecordedEvent.idPart, ← String.append_assoc]
  by_cases hid : e.eventId ≥ 0
  · simp [hid, String.append_assoc]
  · simp [hid]

/-- Behind the first entry the loop appends the others, each behind the separator. -/
theorem historyListSummaryFrom_succ (hlist : ∀ e ∈ list, Constructed e) {i : ℕ}
    (hi : i + 1 + list.length ≤ 10) (sb : String) :
    ∃ text, historyListSummaryFrom (i + 1) sb list = some text ∧
      text.toList = sb.toList ++
        (list.map (·.entry.toList)).flatMap (',' :: [' '] ++ ·) := by
  induction list generalizing i sb with
  | nil => exact ⟨sb, rfl, (List.append_nil _).symm⟩
  | cons e list ih =>
    rw [List.length_cons] at hi
    obtain ⟨text, htext, hchars⟩ := ih (fun x hx => hlist x (List.mem_cons_of_mem _ hx))
      (by omega : i + 1 + 1 + list.length ≤ 10) (sb ++ ", " ++ e.entry)
    refine ⟨text, ?_, ?_⟩
    · rw [historyListSummaryFrom_cons (hlist e List.mem_cons_self) (by omega),
        if_pos (Nat.succ_pos i), htext]
    · rw [hchars]
      simp

/-- At most ten events are all shown, between brackets and separated by a comma and a blank. -/
theorem historyListSummary_eq (hlist : ∀ e ∈ list, Constructed e) (hlen : list.length ≤ 10) :
    ∃ text, historyListSummary list = some text ∧ text.toList =
      '[' :: Text.separated [',', ' '] (list.map (·.entry.toList)) ++ [']'] := by
  cases list with
  | nil => exact ⟨"[]", rfl, rfl⟩
  | cons e list =>
    obtain ⟨text, htext, hchars⟩ := historyListSummaryFrom_succ
      (fun x hx => hlist x (List.mem_cons_of_mem _ hx))
      (by rw [List.length_cons] at hlen; omega : 0 + 1 + list.length ≤ 10) ("[" ++ e.entry)
    refine ⟨text ++ "]", ?_, ?_⟩
    · rw [historyListSummary, historyListSummaryFrom_cons (hlist e List.mem_cons_self)
        (by decide), if_neg (by decide), htext]
      rfl
    · rw [String.toList_append, hchars]
      simp [Text.separated]

/-- Two summaries agree exactly when the histories show the same entries. -/
theorem historyListSummary_inj (hlist : ∀ e ∈ list, Constructed e)
    (hlist' : ∀ e ∈ list', Constructed e) (hlen : list.length ≤ 10) (hlen' : list'.length ≤ 10) :
    historyListSummary list = historyListSummary list' ↔
      list.map (·.entry) = list'.map (·.entry) := by
  obtain ⟨text, htext, hchars⟩ := historyListSummary_eq hlist hlen
  obtain ⟨text', htext', hchars'⟩ := historyListSummary_eq hlist' hlen'
  have hparts {l : List RecordedEvent} (hl : ∀ e ∈ l, Constructed e) :
      ∀ x ∈ l.map (·.entry.toList), x ≠ [] ∧ ',' ∉ x := by
    rintro x hx
    obtain ⟨e, he, rfl⟩ := List.mem_map.mp hx
    exact (hl e he).entry_plain
  rw [htext, htext', Option.some_inj, ← String.toList_inj, hchars, hchars']
  constructor
  · rintro h
    have hsep := Text.separated_inj (by decide) (hparts hlist) (hparts hlist')
      (List.append_cancel_right (List.cons.inj h).2)
    have hinj : Function.Injective (List.map String.toList) :=
      List.map_injective_iff.mpr (fun _ _ => String.toList_injective)
    apply hinj
    rw [List.map_map, List.map_map]
    exact hsep
  · rintro h
    have hmap := congrArg (List.map String.toList) h
    rw [List.map_map, List.map_map] at hmap
    exact congrArg (fun parts => '[' :: Text.separated [',', ' '] parts ++ [']']) hmap

/-- The summary of the two histories is the same only if they have the same length and, position
by position, events of one kind about one task; and no id that it needs is missing. -/
def SummaryIdentifies (list list' : List RecordedEvent) : Prop :=
  (historyListSummary list = historyListSummary list' →
    List.Forall₂ RecordedEvent.Same list list') ∧
  ∀ e ∈ list ++ list', getTaskId e ≠ none

theorem map_entry_eq_iff (hlist : ∀ e ∈ list, Constructed e)
    (hlist' : ∀ e ∈ list', Constructed e) :
    list.map (·.entry) = list'.map (·.entry) ↔
      List.Forall₂ (fun a b => RecordedEvent.Same a b ∨ RecordedEvent.Confusable a b)
        list list' := by
  induction list generalizing list' with
  | nil => cases list' <;> simp
  | cons a list ih =>
    cases list' with
    | nil => simp
    | cons b list' =>
      rw [List.map_cons, List.map_cons, List.cons.injEq, List.forall₂_cons,
        (hlist a List.mem_cons_self).entry_eq_iff (hlist' b List.mem_cons_self),
        ih (fun e he => hlist e (List.mem_cons_of_mem _ he))
          (fun e he => hlist' e (List.mem_cons_of_mem _ he))]

theorem RecordedEvent.Confusable.not_same (h : RecordedEvent.Confusable a b) :
    ¬ RecordedEvent.Same a b := by
  obtain ⟨s, hs, t, ht, hconf⟩ := h
  rintro ⟨hkind, hid⟩
  rw [hs, ht, Option.map_some, Option.map_some, Option.some_inj] at hkind
  rw [taskId_eq hs, taskId_eq ht] at hid
  cases hconf with
  | referred _ hi hj hne =>
    rw [hi, hj] at hid
    exact hne hid
  | completedFailed so so' => cases hkind
  | failedCompleted so so' => cases hkind

/-- The summary identifies two histories exactly when they are not alike but for completions that
refer to different tasks, or sub-orchestrations of which one completed and the other failed. -/
theorem summaryIdentifies_iff (hlist : ∀ e ∈ list, Constructed e)
    (hlist' : ∀ e ∈ list', Constructed e) (hlen : list.length ≤ 10)
    (hlen' : list'.length ≤ 10) :
    SummaryIdentifies list list' ↔
      ¬ (List.Forall₂ (fun a b => RecordedEvent.Same a b ∨ RecordedEvent.Confusable a b)
          list list' ∧
        ∃ p ∈ list.zip list', RecordedEvent.Confusable p.1 p.2) := by
  have hids : ∀ e ∈ list ++ list', getTaskId e ≠ none := by
    rintro e he hnone
    have hcons : Constructed e := by
      obtain he | he := List.mem_append.mp he
      · exact hlist e he
      · exact hlist' e he
    rw [hcons.getTaskId_eq] at hnone
    cases hnone
  rw [SummaryIdentifies, historyListSummary_inj hlist hlist' hlen hlen',
    map_entry_eq_iff hlist hlist']
  constructor
  · rintro ⟨hsame, -⟩ ⟨halike, p, hp, hconf⟩
    exact hconf.not_same ((List.forall₂_iff_zip.mp (hsame halike)).2 hp)
  · rintro hnot
    refine ⟨?_, hids⟩
    rintro halike
    refine List.forall₂_iff_zip.mpr ⟨halike.length_eq, ?_⟩
    rintro a b hab
    obtain hsame | hconf := (List.forall₂_iff_zip.mp halike).2 hab
    · exact hsame
    · exact absurd ⟨halike, (a, b), hab, hconf⟩ hnot

theorem scheduled_tasks_identified :
    SummaryIdentifies [newTaskScheduledEvent default 1 "test" none]
      [newTaskScheduledEvent default 2 "test" none] := by
  refine (summaryIdentifies_iff ?_ ?_ (by decide) (by decide)).mpr ?_
  · simpa using .taskScheduled default "test" none one_pos
  · simpa using .taskScheduled default "test" none two_pos
  · rintro ⟨-, p, hp, s, hs, t, ht, hconf⟩
    obtain rfl := List.mem_singleton.mp hp
    obtain rfl := Option.some.inj hs
    cases hconf.isSome.1

/-- The completions of tasks 1 and 2 have one summary, and so have the completion and the failure
of a sub-orchestration. -/
theorem completions_confused :
    ¬ (∀ list list' : List RecordedEvent, (∀ e ∈ list, Constructed e) →
        (∀ e ∈ list', Constructed e) → list.length ≤ 10 → list'.length ≤ 10 →
          SummaryIdentifies list list') ∧
      historyListSummary [newTaskCompletedEvent default 1 none] =
        historyListSummary [newTaskCompletedEvent default 2 none] ∧
      historyListSummary
          [newEvent default (-1) (.subOrchestrationInstanceCompleted ⟨1, none⟩)] =
        historyListSummary
          [newEvent default (-1) (.subOrchestrationInstanceFailed ⟨1, none⟩)] := by
  refine ⟨?_, rfl, rfl⟩
  rintro h
  have hids := h [newTaskCompletedEvent default 1 none] [newTaskCompletedEvent default 2 none]
    (by simpa using .taskCompleted default none one_pos)
    (by simpa using .taskCompleted default none two_pos) (by decide) (by decide)
  obtain ⟨⟨-, hid⟩, -⟩ := List.forall₂_cons.mp (hids.1 rfl)
  cases hid

end DurableTask
