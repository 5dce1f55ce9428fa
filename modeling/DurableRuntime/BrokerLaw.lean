import DurableRuntime.CredentialBroker
import Mathlib.Data.List.Induction

/-!
# What the credential broker yields

A log of broker calls is a sequence of `issue`, `consume` and `discard` calls on
a broker that starts empty, at times that never go back, whose `issue` calls
draw distinct handles.  Expired entries stay in the map until the next purge, so
what a call finds depends on all calls before it; what it yields does not.
-/

namespace DurableRuntime

namespace CredentialBroker

inductive Call
  | issue (handle : Uuid) (credential : JsString)
  | consume (handle : Uuid)
  | discard (handle : Uuid)
  deriving DecidableEq

structure TimedCall where
  time : Int
  call : Call
  deriving DecidableEq

def Call.handle : Call → Uuid
  | .issue handle _ => handle
  | .consume handle => handle
  | .discard handle => handle

def Call.issued : Call → Option Uuid
  | .issue handle _ => some handle
  | .consume _ => none
  | .discard _ => none

/-- The calls that take the entry of a handle out of the map. -/
def Call.spends (handle : Uuid) (call : Call) : Prop :=
  call = .consume handle ∨ call = .discard handle

def perform (broker : CredentialBroker) (call : TimedCall) : CredentialBroker :=
  match call.call with
  | .issue handle credential => broker.issue call.time handle credential
  | .consume handle => (broker.consume call.time handle).2
  | .discard handle => broker.discard handle

/-- The broker after the calls, from `new CredentialBroker(ttlMs)`. -/
def replay (ttlMs : Int) (calls : List TimedCall) : CredentialBroker :=
  calls.foldl perform ⟨[], ttlMs⟩

/-- What `consume(handle)` at a time yields after the calls. -/
def yields (ttlMs : Int) (calls : List TimedCall) (time : Int) (handle : Uuid) : Option JsString :=
  ((replay ttlMs calls).consume time handle).1

@[simp] theorem replay_nil (ttlMs : Int) : replay ttlMs [] = ⟨[], ttlMs⟩ := rfl

@[simp] theorem replay_snoc (ttlMs : Int) (calls : List TimedCall) (call : TimedCall) :
    replay ttlMs (calls ++ [call]) = (replay ttlMs calls).perform call := by
  simp [replay]

@[simp] theorem perform_ttlMs (broker : CredentialBroker) (call : TimedCall) :
    (broker.perform call).ttlMs = broker.ttlMs := by
  unfold perform
  cases call.call <;> rfl

@[simp] theorem replay_ttlMs (ttlMs : Int) (calls : List TimedCall) :
    (replay ttlMs calls).ttlMs = ttlMs := by
  induction calls using List.reverseRecOn with
  | nil => rfl
  | append_singleton calls call ih => rw [replay_snoc, perform_ttlMs, ih]

/-- What one call does to the entries, whatever they are. -/
theorem mem_perform {broker : CredentialBroker} {call : TimedCall} {entry : BrokerEntry} :
    entry ∈ (broker.perform call).entries ↔
      (call.call = .issue entry.handle entry.credential ∧
        entry.expiresAt = call.time + broker.ttlMs) ∨
      (entry ∈ broker.entries ∧ entry.handle ≠ call.call.handle ∧
        ((∃ handle, call.call = .discard handle) ∨ call.time < entry.expiresAt)) := by
  obtain ⟨time, call⟩ := call
  obtain ⟨handle, credential, expiresAt⟩ := entry
  cases call with
  | issue other secret =>
      simp only [perform, issue, delete, purge, Call.handle, List.mem_append, List.mem_filter,
        List.mem_singleton, BrokerEntry.mk.injEq, Call.issue.injEq, decide_eq_true_eq]
      constructor
      · rintro (⟨⟨hmem, htime⟩, hne⟩ | ⟨rfl, rfl, rfl⟩)
        · exact .inr ⟨hmem, hne, .inr htime⟩
        · exact .inl ⟨⟨rfl, rfl⟩, rfl⟩
      · rintro (⟨⟨rfl, rfl⟩, rfl⟩ | ⟨hmem, hne, ⟨_, hdiscard⟩ | htime⟩)
        · exact .inr ⟨rfl, rfl, rfl⟩
        · cases hdiscard
        · exact .inl ⟨⟨hmem, htime⟩, hne⟩
  | consume other =>
      simp only [perform, consume, delete, purge, Call.handle, List.mem_filter,
        decide_eq_true_eq, reduceCtorEq, false_and, false_or, exists_false]
      constructor
      · rintro ⟨⟨hmem, htime⟩, hne⟩
        exact ⟨hmem, hne, htime⟩
      · rintro ⟨hmem, hne, htime⟩
        exact ⟨⟨hmem, htime⟩, hne⟩
  | discard other =>
      simp [perform, discard, delete, Call.handle]

/-! ## Credentials that were issued and not spent -/

/-- `issue(credential)` at `time` returned the handle, and no later call spent it. -/
def Unspent (calls : List TimedCall) (time : Int) (handle : Uuid) (credential : JsString) : Prop :=
  ∃ before after, calls = before ++ ⟨time, .issue handle credential⟩ :: after ∧
    ∀ call ∈ after, ¬ call.call.spends handle

theorem unspent_snoc {calls : List TimedCall} {call : TimedCall} {time : Int} {handle : Uuid}
    {credential : JsString} :
    Unspent (calls ++ [call]) time handle credential ↔
      call = ⟨time, .issue handle credential⟩ ∨
        (Unspent calls time handle credential ∧ ¬ call.call.spends handle) := by
  constructor
  · rintro ⟨before, after, heq, hspends⟩
    induction after using List.reverseRecOn with
    | nil =>
        obtain ⟨-, hlast⟩ := List.append_inj' heq rfl
        exact .inl (List.singleton_inj.mp hlast)
    | append_singleton after last _ =>
        rw [← List.cons_append, ← List.append_assoc] at heq
        obtain ⟨hcalls, hlast⟩ := List.append_inj' heq rfl
        rw [List.singleton_inj] at hlast
        subst hlast
        refine .inr ⟨⟨before, after, hcalls, ?_⟩, hspends call (by simp)⟩
        intro other hother
        exact hspends other (by simp [hother])
  · rintro (rfl | ⟨⟨before, after, rfl, hspends⟩, hlast⟩)
    · exact ⟨calls, [], rfl, by simp⟩
    · refine ⟨before, after ++ [call], by simp, ?_⟩
      intro other hother
      rcases List.mem_append.mp hother with hother | hother
      · exact hspends other hother
      · rw [List.mem_singleton.mp hother]
        exact hlast

theorem Unspent.mem {calls : List TimedCall} {time : Int} {handle : Uuid} {credential : JsString}
    (h : Unspent calls time handle credential) : ⟨time, .issue handle credential⟩ ∈ calls := by
  obtain ⟨before, after, rfl, -⟩ := h
  simp

/-- The `issue` calls draw distinct handles. -/
def Fresh (calls : List TimedCall) : Prop :=
  (calls.filterMap fun call => call.call.issued).Nodup

/-- The clock never goes back. -/
def Clocked (calls : List TimedCall) : Prop :=
  calls.Pairwise fun earlier later => earlier.time ≤ later.time

theorem Fresh.of_append {calls rest : List TimedCall} (h : Fresh (calls ++ rest)) :
    Fresh calls := by
  rw [Fresh, List.filterMap_append] at h
  exact (List.nodup_append.mp h).1

theorem Clocked.of_append {calls rest : List TimedCall} (h : Clocked (calls ++ rest)) :
    Clocked calls :=
  (List.pairwise_append.mp h).1

theorem Clocked.before {calls rest : List TimedCall} {call : TimedCall}
    (h : Clocked (calls ++ call :: rest)) : ∀ earlier ∈ calls, earlier.time ≤ call.time := by
  intro earlier hearlier
  exact (List.pairwise_append.mp h).2.2 earlier hearlier call (by simp)

/-- An `issue` call does not draw a handle that an earlier one drew. -/
theorem Fresh.not_before {calls rest : List TimedCall} {time : Int} {handle : Uuid}
    {credential : JsString} (h : Fresh (calls ++ ⟨time, .issue handle credential⟩ :: rest)) :
    ∀ t c, ⟨t, .issue handle c⟩ ∉ calls := by
  intro t c hmem
  rw [Fresh, List.filterMap_append, List.nodup_append] at h
  have hdrawn : handle ∈ calls.filterMap fun call => call.call.issued :=
    List.mem_filterMap.mpr ⟨_, hmem, rfl⟩
  exact h.2.2 handle hdrawn handle (by simp [Call.issued]) rfl

/-- A handle stands for one credential, issued at one time. -/
theorem Fresh.unspent_unique {calls : List TimedCall} (h : Fresh calls) {time time' : Int}
    {handle : Uuid} {credential credential' : JsString}
    (hunspent : Unspent calls time handle credential)
    (hunspent' : Unspent calls time' handle credential') :
    time = time' ∧ credential = credential' := by
  induction calls using List.reverseRecOn with
  | nil =>
      obtain ⟨before, after, heq, -⟩ := hunspent
      simp at heq
  | append_singleton calls call ih =>
      rcases unspent_snoc.mp hunspent with rfl | ⟨hold, -⟩
      · rcases unspent_snoc.mp hunspent' with heq | ⟨hold', -⟩
        · simp only [TimedCall.mk.injEq, Call.issue.injEq, true_and] at heq
          exact heq
        · exact absurd hold'.mem (h.not_before _ _)
      · rcases unspent_snoc.mp hunspent' with rfl | ⟨hold', -⟩
        · exact absurd hold.mem (h.not_before _ _)
        · exact ih h.of_append hold hold'

/-! ## What the map holds -/

/-- Every entry was issued and not spent. -/
theorem unspent_of_mem {ttlMs : Int} {calls : List TimedCall} {entry : BrokerEntry}
    (hmem : entry ∈ (replay ttlMs calls).entries) :
    ∃ time, Unspent calls time entry.handle entry.credential ∧
      entry.expiresAt = time + ttlMs := by
  induction calls using List.reverseRecOn with
  | nil => simp at hmem
  | append_singleton calls call ih =>
      rw [replay_snoc, mem_perform, replay_ttlMs] at hmem
      rcases hmem with ⟨hissue, hexpires⟩ | ⟨hold, hne, -⟩
      · refine ⟨call.time, unspent_snoc.mpr (.inl ?_), hexpires⟩
        rw [← hissue]
      · obtain ⟨time, hunspent, hexpires⟩ := ih hold
        refine ⟨time, unspent_snoc.mpr (.inr ⟨hunspent, ?_⟩), hexpires⟩
        rintro (hspends | hspends) <;> exact hne (by rw [hspends, Call.handle])

/-- What was issued and not spent is in the map until it expires. -/
theorem mem_of_unspent {ttlMs : Int} {calls : List TimedCall} (hfresh : Fresh calls)
    {time : Int} {handle : Uuid} {credential : JsString}
    (hunspent : Unspent calls time handle credential)
    (hlive : ∀ call ∈ calls, call.time < time + ttlMs) :
    ⟨handle, credential, time + ttlMs⟩ ∈ (replay ttlMs calls).entries := by
  induction calls using List.reverseRecOn with
  | nil =>
      obtain ⟨before, after, heq, -⟩ := hunspent
      simp at heq
  | append_singleton calls call ih =>
      rw [replay_snoc, mem_perform, replay_ttlMs]
      rcases unspent_snoc.mp hunspent with rfl | ⟨hold, hspends⟩
      · exact .inl ⟨rfl, rfl⟩
      · refine .inr ⟨ih hfresh.of_append hold ?_, ?_, .inr (hlive call (by simp))⟩
        · intro other hother
          exact hlive other (by simp [hother])
        · intro hhandle
          obtain ⟨t, call⟩ := call
          cases call with
          | issue other secret =>
              cases hhandle
              exact hfresh.not_before _ _ hold.mem
          | consume other =>
              cases hhandle
              exact hspends (.inl rfl)
          | discard other =>
              cases hhandle
              exact hspends (.inr rfl)

theorem yields_eq_some {ttlMs : Int} {calls : List TimedCall} {time : Int} {handle : Uuid}
    {credential : JsString} (hfresh : Fresh calls) (hclock : ∀ call ∈ calls, call.time ≤ time) :
    yields ttlMs calls time handle = some credential ↔
      ∃ issuedAt, Unspent calls issuedAt handle credential ∧ time < issuedAt + ttlMs := by
  simp only [yields, consume, get, Option.map_eq_some_iff]
  constructor
  · rintro ⟨entry, hfound, rfl⟩
    have hhandle : entry.handle = handle := by simpa using List.find?_some hfound
    have hmem := List.mem_of_find?_eq_some hfound
    simp only [purge, List.mem_filter, decide_eq_true_eq] at hmem
    obtain ⟨issuedAt, hunspent, hexpires⟩ := unspent_of_mem hmem.1
    exact ⟨issuedAt, hhandle ▸ hunspent, hexpires ▸ hmem.2⟩
  · rintro ⟨issuedAt, hunspent, hlive⟩
    have hmem : ⟨handle, credential, issuedAt + ttlMs⟩ ∈
        ((replay ttlMs calls).purge time).entries := by
      simp only [purge, List.mem_filter, decide_eq_true_eq]
      refine ⟨mem_of_unspent hfresh hunspent ?_, hlive⟩
      intro call hcall
      have := hclock call hcall
      omega
    cases hfound : ((replay ttlMs calls).purge time).entries.find?
        fun entry => entry.handle = handle with
    | none =>
        rw [List.find?_eq_none] at hfound
        simpa using hfound _ hmem
    | some entry =>
        refine ⟨entry, rfl, ?_⟩
        have hhandle : entry.handle = handle := by simpa using List.find?_some hfound
        have hmem' := List.mem_of_find?_eq_some hfound
        simp only [purge, List.mem_filter] at hmem'
        obtain ⟨issuedAt', hunspent', -⟩ := unspent_of_mem hmem'.1
        rw [hhandle] at hunspent'
        exact (hfresh.unspent_unique hunspent' hunspent).2

/-! ## Calls on other handles -/

/-- The calls on one handle. -/
def onHandle (handle : Uuid) (calls : List TimedCall) : List TimedCall :=
  calls.filter fun call => call.call.handle = handle

theorem unspent_onHandle {calls : List TimedCall} {time : Int} {handle : Uuid}
    {credential : JsString} :
    Unspent (onHandle handle calls) time handle credential ↔
      Unspent calls time handle credential := by
  induction calls using List.reverseRecOn with
  | nil => rfl
  | append_singleton calls call ih =>
      have hsnoc : onHandle handle (calls ++ [call]) =
          onHandle handle calls ++ onHandle handle [call] := by
        simp [onHandle]
      rw [hsnoc, unspent_snoc]
      by_cases hcall : call.call.handle = handle
      · rw [show onHandle handle [call] = [call] by simp [onHandle, hcall], unspent_snoc, ih]
      · rw [show onHandle handle [call] = [] by simp [onHandle, hcall], List.append_nil, ih]
        have hissue : call ≠ ⟨time, .issue handle credential⟩ := by
          rintro rfl
          exact hcall rfl
        have hspends : ¬ call.call.spends handle := by
          rintro (hspends | hspends) <;> exact hcall (by rw [hspends, Call.handle])
        simp [hissue, hspends]

theorem Fresh.onHandle {calls : List TimedCall} (h : Fresh calls) (handle : Uuid) :
    Fresh (onHandle handle calls) :=
  h.sublist (List.filter_sublist.filterMap _)

/-! ## The law -/

/-- A sequence of calls on a broker. -/
structure Log where
  ttlMs : Int
  positive : 0 < ttlMs
  calls : List TimedCall
  clocked : Clocked calls
  fresh : Fresh calls

/-- What the broker owes the callers of a log. -/
structure Law (log : Log) : Prop where
  yields_iff : ∀ before time handle after credential,
    log.calls = before ++ ⟨time, .consume handle⟩ :: after →
      (yields log.ttlMs before time handle = some credential ↔
        ∃ issuedAt, Unspent before issuedAt handle credential ∧ time < issuedAt + log.ttlMs)
  once : ∀ before time handle between time' after,
    log.calls = before ++ ⟨time, .consume handle⟩ :: between ++ ⟨time', .consume handle⟩ :: after →
      yields log.ttlMs before time handle ≠ none →
        yields log.ttlMs (before ++ ⟨time, .consume handle⟩ :: between) time' handle = none
  independent : ∀ before time handle after,
    log.calls = before ++ ⟨time, .consume handle⟩ :: after →
      yields log.ttlMs (onHandle handle before) time handle = yields log.ttlMs before time handle
  purged : ∀ before call after, log.calls = before ++ call :: after →
    (∀ handle, call.call ≠ .discard handle) →
      ∀ entry ∈ (replay log.ttlMs (before ++ [call])).entries, call.time < entry.expiresAt

theorem Log.yields_eq_some {log : Log} {before after : List TimedCall} {time : Int} {handle : Uuid}
    {credential : JsString} (hcalls : log.calls = before ++ ⟨time, .consume handle⟩ :: after) :
    yields log.ttlMs before time handle = some credential ↔
      ∃ issuedAt, Unspent before issuedAt handle credential ∧ time < issuedAt + log.ttlMs :=
  CredentialBroker.yields_eq_some (hcalls ▸ log.fresh).of_append (hcalls ▸ log.clocked).before

/-- The handle of an unspent credential was drawn before any call that is followed by no draw. -/
theorem Unspent.of_spent {before between : List TimedCall} {time issuedAt : Int} {handle : Uuid}
    {credential : JsString}
    (h : Unspent (before ++ ⟨time, .consume handle⟩ :: between) issuedAt handle credential) :
    ⟨issuedAt, .issue handle credential⟩ ∈ between := by
  induction between using List.reverseRecOn with
  | nil =>
      rcases unspent_snoc.mp h with heq | ⟨-, hspends⟩
      · simp at heq
      · exact absurd (.inl rfl) hspends
  | append_singleton between call ih =>
      rw [← List.cons_append, ← List.append_assoc] at h
      rcases unspent_snoc.mp h with rfl | ⟨hold, -⟩
      · simp
      · simp [ih hold]

end CredentialBroker

open CredentialBroker in
theorem brokerLaw (log : Log) : Law log where
  yields_iff := by
    intro before time handle after credential hcalls
    exact log.yields_eq_some hcalls
  once := by
    intro before time handle between time' after hcalls hfirst
    obtain ⟨credential, hcredential⟩ := Option.ne_none_iff_exists'.mp hfirst
    have hdrawn := (log.yields_eq_some (by rw [hcalls, List.append_assoc]; rfl)).mp hcredential
    rw [Option.eq_none_iff_forall_ne_some]
    intro credential' hcredential'
    obtain ⟨issuedAt', hunspent', -⟩ := (log.yields_eq_some hcalls).mp hcredential'
    obtain ⟨issuedAt, hunspent, -⟩ := hdrawn
    -- the second credential would have been issued after the first `consume`, under a drawn handle
    obtain ⟨early, late, hbetween⟩ := List.append_of_mem hunspent'.of_spent
    have hfresh := log.fresh
    rw [hcalls, hbetween] at hfresh
    have hsplit : before ++ ⟨time, .consume handle⟩ ::
        (early ++ ⟨issuedAt', .issue handle credential'⟩ :: late) ++
          ⟨time', .consume handle⟩ :: after =
        (before ++ ⟨time, .consume handle⟩ :: early) ++
          ⟨issuedAt', .issue handle credential'⟩ ::
            (late ++ ⟨time', .consume handle⟩ :: after) := by
      simp
    rw [hsplit] at hfresh
    exact hfresh.not_before issuedAt credential (by simp [hunspent.mem])
  independent := by
    intro before time handle after hcalls
    have hfresh : Fresh before := (hcalls ▸ log.fresh).of_append
    have hclock : ∀ call ∈ before, call.time ≤ time := (hcalls ▸ log.clocked).before
    have hclock' : ∀ call ∈ onHandle handle before, call.time ≤ time := by
      intro call hcall
      exact hclock call (List.mem_filter.mp hcall).1
    apply Option.ext
    intro credential
    rw [CredentialBroker.yields_eq_some (hfresh.onHandle handle) hclock',
      CredentialBroker.yields_eq_some hfresh hclock]
    simp only [unspent_onHandle]
  purged := by
    intro before call after _ hdiscard entry hentry
    rw [replay_snoc, mem_perform, replay_ttlMs] at hentry
    rcases hentry with ⟨-, hexpires⟩ | ⟨-, -, ⟨handle, hcall⟩ | hlive⟩
    · have := log.positive
      omega
    · exact absurd hcall (hdiscard handle)
    · exact hlive

open CredentialBroker in
/-- Two handles are issued at time 0 for 5 ms; the second is consumed too late. -/
def CredentialBroker.twoHandles : Log where
  ttlMs := 5
  positive := by decide
  calls := [⟨0, .issue 1 (.ofString "a")⟩, ⟨0, .issue 2 (.ofString "b")⟩, ⟨4, .consume 1⟩,
    ⟨5, .consume 2⟩]
  clocked := by simp [Clocked]
  fresh := by simp [Fresh, Call.issued]

open CredentialBroker in
theorem twoHandles_brokerLaw : Law twoHandles ∧
    yields 5 (twoHandles.calls.take 2) 4 1 = some (.ofString "a") ∧
      yields 5 (twoHandles.calls.take 3) 5 2 = none :=
  ⟨brokerLaw twoHandles, by decide, by decide⟩

end DurableRuntime
