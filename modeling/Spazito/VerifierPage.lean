import Spazito.VerifierHistory

set_option autoImplicit false

/-!
# The verifier page in use

The handler of the verify button waits for Web Crypto in the middle. Meanwhile the page goes on: keys and
texts are typed, other verifications are started and come to their end in any order, the key is
forgotten, the page is loaded again.
-/
namespace Spazito.Verifier
open Ecma

/-- A verification that waits for its code: what the handler has taken from the page. -/
structure Job where
  secret : JSString
  text : JSString
  parsed : Parsed

structure Tab where
  page : Page
  msg : JSString
  result : Option Report
  jobs : List Job

inductive Event
  | typeSecret (s : JSString)
  | typeMessage (s : JSString)
  | check (remember : Bool)
  | verify
  | finish (k : ℕ)
  | fail (k : ℕ)
  | forget
  | reload

/-- A key that is stored, and not the empty string, comes back with the box checked. -/
def Page.loadSecret (page : Page) : Page :=
  match page.storedSecret with
  | some (u :: s) => { page with secret := u :: s, remember := true }
  | _ => page

/-- The handler of the forget button. -/
def Page.forget (page : Page) : Page :=
  { page with storedSecret := none, secret := [], remember := false }

def keyMissing : Report := ⟨js "warn", js "Enter your key first", none, []⟩

def blockMissing : Report := ⟨js "warn", js "Couldn't find a [#N CODE] block", none,
  js "Paste the full text exactly as received, including the [ ... ] at the end."⟩

section Events
variable [Platform]

/-- The handler of the verify button up to where it waits. -/
def Tab.click (tab : Tab) : Tab :=
  let page := tab.page.saveSecretMaybe
  let secret := trim page.secret
  if secret = [] then { tab with page := page, result := some keyMissing }
  else
    match parseMessage tab.msg with
    | none => { tab with page := page, result := some blockMissing }
    | some p => { tab with page := page, jobs := tab.jobs ++ [⟨secret, tab.msg, p⟩] }

/-- The rest of it, when the code has been computed. -/
def Job.resume (job : Job) (page : Page) : Page × Report :=
  let expected := expectedTag job.secret job.parsed
  let seq := checkSequence page.lastN job.parsed.n
  if ctEqual expected job.parsed.tag then
    (page.advance job.parsed.n, ⟨js "ok", js "✅ Authentic", some seq,
      js "verified: HMAC-SHA256 tag matches for count #" ++ job.parsed.n.toText⟩)
  else
    (page, ⟨js "bad", js "❌ NOT verified", some seq, js "expected " ++ expected ++
      js " but the text carried " ++ job.parsed.tag ++
      js " — wrong key, or the message was altered/spoofed."⟩)

def Tab.finish (tab : Tab) (k : ℕ) : Tab :=
  match tab.jobs[k]? with
  | none => tab
  | some job => { tab with page := (job.resume tab.page).1, result := some (job.resume tab.page).2,
                           jobs := tab.jobs.eraseIdx k }

def Tab.reload (tab : Tab) : Tab where
  page := { tab.page with secret := [], remember := false }.loadSecret
  msg := []
  result := none
  jobs := []

def Tab.step (tab : Tab) : Event → Tab
  | .typeSecret s => { tab with page := { tab.page with secret := s } }
  | .typeMessage s => { tab with msg := s }
  | .check remember => { tab with page := { tab.page with remember := remember } }
  | .verify => tab.click
  | .finish k => tab.finish k
  | .fail k => { tab with jobs := tab.jobs.eraseIdx k }
  | .forget => { tab with page := tab.page.forget }
  | .reload => tab.reload

def Tab.run (tab : Tab) (events : List Event) : Tab := events.foldl Tab.step tab

@[simp] theorem Tab.run_nil (tab : Tab) : tab.run [] = tab := rfl

@[simp] theorem Tab.run_concat (tab : Tab) (events : List Event) (e : Event) :
    tab.run (events ++ [e]) = (tab.run events).step e := by simp [Tab.run]

/-! ## Overlapping verifications -/

def Tab.completes (tab : Tab) : Event → List Job
  | .finish k => tab.jobs[k]?.toList
  | _ => []

def Tab.finished (tab : Tab) : List Event → List Job
  | [] => []
  | e :: events => tab.completes e ++ (tab.step e).finished events

theorem Tab.finished_append (tab : Tab) (events events' : List Event) :
    tab.finished (events ++ events') = tab.finished events ++ (tab.run events).finished events' := by
  induction events generalizing tab with
  | nil => rfl
  | cons e events ih =>
    rw [List.cons_append, finished, ih, finished, List.append_assoc]
    rfl

theorem Tab.finished_concat (tab : Tab) (events : List Event) (e : Event) :
    tab.finished (events ++ [e]) = tab.finished events ++ (tab.run events).completes e := by
  rw [finished_append, finished, finished, List.append_nil]

def Page.withKey (page : Page) (secret : JSString) : Page := { page with secret := secret }

/-- One verification after another, each with its own key, and nobody else at the page. -/
def sequential (page : Page) (jobs : List Job) : Page :=
  jobs.foldl (fun page job => (verify (page.withKey job.secret) job.text).1) page

@[simp] theorem sequential_concat (page : Page) (jobs : List Job) (job : Job) :
    sequential page (jobs ++ [job]) =
      (verify ((sequential page jobs).withKey job.secret) job.text).1 := by simp [sequential]

/-- What the handler has taken is a key and a text with a block. -/
structure Job.Sound (job : Job) : Prop where
  secret : trim job.secret = job.secret
  some_key : job.secret ≠ []
  parsed : parseMessage job.text = some job.parsed

theorem Job.Sound.resume {job : Job} (h : job.Sound) (page : Page) {page' : Page}
    (hpage : page'.storedLastN = page.storedLastN) :
    (verify (page'.withKey job.secret) job.text).1.storedLastN = (job.resume page).1.storedLastN ∧
      (verify (page'.withKey job.secret) job.text).2 = (job.resume page).2 := by
  have htrim : trim (page'.withKey job.secret).saveSecretMaybe.secret = job.secret := h.secret
  have hlast : (page'.withKey job.secret).saveSecretMaybe.lastN = page.lastN :=
    congrArg (Option.map Number.parseInt) hpage
  have hstored : (page'.withKey job.secret).saveSecretMaybe.storedLastN = page.storedLastN := hpage
  have hadvance : ((page'.withKey job.secret).saveSecretMaybe.advance job.parsed.n).storedLastN =
      (page.advance job.parsed.n).storedLastN := by
    rw [Page.advance, Page.advance, hlast]
    cases page.lastN with
    | none => rfl
    | some last =>
      dsimp only
      split_ifs
      · rfl
      · exact hstored
  rw [verify, Job.resume]
  simp only [htrim, h.some_key, ↓reduceIte, h.parsed, hlast]
  split_ifs
  · exact ⟨hadvance, rfl⟩
  · exact ⟨hstored, rfl⟩

/-- The stored count is that of the verifications that have come to their end, one after another. -/
structure Tab.Follows (tab : Tab) (page : Page) (done : List Job) : Prop where
  stored : tab.page.storedLastN = (sequential page done).storedLastN
  sound : ∀ job ∈ tab.jobs, job.Sound

omit [Platform] in
theorem Tab.click_page (tab : Tab) : tab.click.page = tab.page.saveSecretMaybe := by
  unfold Tab.click
  dsimp only
  split_ifs
  · rfl
  · split <;> rfl

omit [Platform] in
theorem Tab.sound_click {tab : Tab} (h : ∀ job ∈ tab.jobs, job.Sound) :
    ∀ job ∈ tab.click.jobs, job.Sound := by
  unfold Tab.click
  dsimp only
  split_ifs with hkey
  · exact h
  · split
    · exact h
    · next p hp =>
      intro job hjob
      rcases List.mem_append.mp hjob with hjob | hjob
      · exact h job hjob
      · rw [List.mem_singleton.mp hjob]
        exact ⟨trim_trim _, hkey, hp⟩

omit [Platform] in
theorem Page.loadSecret_storedLastN (page : Page) : page.loadSecret.storedLastN = page.storedLastN := by
  unfold Page.loadSecret
  split <;> rfl

theorem Tab.Follows.step {tab : Tab} {page : Page} {done : List Job} (h : tab.Follows page done)
    (e : Event) : (tab.step e).Follows page (done ++ tab.completes e) := by
  have hsame {tab' : Tab} (hstored : tab'.page.storedLastN = tab.page.storedLastN)
      (hsound : ∀ job ∈ tab'.jobs, job.Sound) : tab'.Follows page (done ++ []) := by
    rw [List.append_nil]
    exact ⟨hstored.trans h.stored, hsound⟩
  cases e with
  | typeSecret s | typeMessage s | check remember | forget => exact hsame rfl h.sound
  | verify =>
    have hpage : tab.click.page.storedLastN = tab.page.storedLastN := by
      rw [tab.click_page]
      rfl
    exact hsame hpage (sound_click h.sound)
  | fail k => exact hsame rfl fun job hjob => h.sound job (List.mem_of_mem_eraseIdx hjob)
  | reload =>
    exact hsame (Page.loadSecret_storedLastN _) fun job hjob => (List.not_mem_nil hjob).elim
  | finish k =>
    rw [Tab.step, Tab.finish, Tab.completes]
    cases hjob : tab.jobs[k]? with
    | none =>
      rw [Option.toList_none, List.append_nil]
      exact h
    | some job =>
      have hsound := h.sound job (List.mem_of_getElem? hjob)
      refine ⟨?_, fun job' hjob' => h.sound job' (List.mem_of_mem_eraseIdx hjob')⟩
      rw [Option.toList_some, sequential_concat, (hsound.resume tab.page h.stored.symm).1]

theorem Tab.follows_run {tab : Tab} (h : ∀ job ∈ tab.jobs, job.Sound) (events : List Event) :
    (tab.run events).Follows tab.page (tab.finished events) := by
  induction events using List.reverseRecOn with
  | nil => exact ⟨rfl, h⟩
  | append_singleton events e ih =>
    rw [run_concat, finished_concat]
    exact ih.step e

theorem Tab.sound_finished {tab : Tab} (h : ∀ job ∈ tab.jobs, job.Sound) (events : List Event) :
    ∀ job ∈ tab.finished events, job.Sound := by
  induction events using List.reverseRecOn with
  | nil => exact fun job hjob => (List.not_mem_nil hjob).elim
  | append_singleton events e ih =>
    intro job hjob
    rw [finished_concat] at hjob
    rcases List.mem_append.mp hjob with hjob | hjob
    · exact ih job hjob
    · cases e with
      | finish k =>
        exact (follows_run h events).sound job (List.mem_of_getElem? (Option.mem_toList.mp hjob))
      | _ => exact (List.not_mem_nil hjob).elim

/-! ## What is stored -/

def Holds (counts : Set ℕ) (stored : Option JSString) : Prop :=
  match stored with
  | none => counts = ∅
  | some raw => ∃ n : ℕ, n < 2 ^ 53 ∧ raw = decimal n ∧ IsGreatest counts n

omit [Platform] in
theorem Holds.advance {page : Page} {counts : Set ℕ} (h : Holds counts page.storedLastN) {n : ℕ}
    (hn : n < 2 ^ 53) : Holds (insert n counts) (page.advance (.finite n)).storedLastN := by
  cases hs : page.storedLastN with
  | none =>
    rw [hs] at h
    have hadvance : (page.advance (.finite n)).storedLastN = some (decimal n) := by
      simp [Page.advance, Page.lastN, hs, Number.toText_natCast n hn.le]
    rw [hadvance, show counts = ∅ from h, insert_empty_eq]
    exact ⟨n, hn, rfl, isGreatest_singleton⟩
  | some raw =>
    rw [hs] at h
    obtain ⟨last, hlast, rfl, hgreatest⟩ := h
    have hadvance : (page.advance (.finite n)).storedLastN = some (decimal (max n last)) := by
      rcases Nat.lt_or_ge last n with hlt | hle
      · rw [Nat.max_eq_left hlt.le]
        simp [Page.advance, Page.lastN, hs, Number.parseInt_decimal last hlast.le, lt_natCast, hlt,
          Number.toText_natCast n hn.le]
      · rw [Nat.max_eq_right hle]
        simp [Page.advance, Page.lastN, hs, Number.parseInt_decimal last hlast.le, lt_natCast,
          Nat.not_lt.mpr hle]
    rw [hadvance]
    exact ⟨max n last, Nat.max_lt.mpr ⟨hn, hlast⟩, rfl, hgreatest.insert n⟩

def jobCounts (jobs : List Job) : Set ℕ :=
  {n | ∃ job ∈ jobs, genuine job.secret job.text = some (.finite n)}

def Job.Countable (job : Job) : Prop :=
  ∀ x, genuine job.secret job.text = some x → ∃ n : ℕ, n < 2 ^ 53 ∧ x = .finite n

theorem sequential_holds {page : Page} (hfresh : page.storedLastN = none) {jobs : List Job}
    (hsound : ∀ job ∈ jobs, job.Sound) (hcount : ∀ job ∈ jobs, job.Countable) :
    Holds (jobCounts jobs) (sequential page jobs).storedLastN := by
  induction jobs using List.reverseRecOn with
  | nil =>
    rw [show (sequential page []).storedLastN = none from hfresh]
    exact Set.eq_empty_iff_forall_notMem.mpr fun n ⟨job, hjob, _⟩ => List.not_mem_nil hjob
  | append_singleton jobs job ih =>
    have hprev := ih (fun j hj => hsound j (List.mem_append_left _ hj))
      fun j hj => hcount j (List.mem_append_left _ hj)
    obtain ⟨htrim, hne, -⟩ := hsound job (by simp)
    have hkey : trim ((sequential page jobs).withKey job.secret).secret = job.secret := htrim
    rw [sequential_concat, (verify_page hkey hne _).2]
    have hcounts : ∀ m, m ∈ jobCounts (jobs ++ [job]) ↔
        m ∈ jobCounts jobs ∨ genuine job.secret job.text = some (.finite m) := by
      intro m
      simp [jobCounts, List.mem_append, or_and_right, exists_or]
    cases hg : genuine job.secret job.text with
    | none =>
      have hsame : jobCounts (jobs ++ [job]) = jobCounts jobs := by
        ext m
        rw [hcounts m, hg]
        simp
      rw [hsame]
      exact hprev
    | some x =>
      obtain ⟨n, hn, rfl⟩ := hcount job (by simp) x hg
      have hmore : jobCounts (jobs ++ [job]) = insert n (jobCounts jobs) := by
        ext m
        rw [hcounts m, hg, Set.mem_insert_iff]
        simp [or_comm, eq_comm]
      rw [hmore]
      have hkeyed : Holds (jobCounts jobs) ((sequential page jobs).withKey job.secret).storedLastN := hprev
      exact hkeyed.advance hn

/-! ## Where it comes from -/

def Tab.Clicked (tab : Tab) (events : List Event) (job : Job) : Prop :=
  ∃ front rest, events = front ++ .verify :: rest ∧ job.secret = trim (tab.run front).page.secret ∧
    job.text = (tab.run front).msg

theorem Tab.Clicked.concat {tab : Tab} {events : List Event} {job : Job} (h : tab.Clicked events job)
    (e : Event) : tab.Clicked (events ++ [e]) job := by
  obtain ⟨front, rest, rfl, hfields⟩ := h
  exact ⟨front, rest ++ [e], by simp, hfields⟩

theorem Tab.clicked_run {tab : Tab} (hidle : tab.jobs = []) (events : List Event) :
    (∀ job ∈ (tab.run events).jobs, tab.Clicked events job) ∧
      ∀ job ∈ tab.finished events, tab.Clicked events job := by
  induction events using List.reverseRecOn with
  | nil => exact ⟨fun job hjob => by simp [hidle] at hjob, fun job hjob => (List.not_mem_nil hjob).elim⟩
  | append_singleton events e ih =>
    obtain ⟨hjobs, hdone⟩ := ih
    rw [run_concat, finished_concat]
    refine ⟨fun job hjob => ?_, fun job hjob => ?_⟩
    · cases e with
      | typeSecret s | typeMessage s | check remember | forget => exact (hjobs job hjob).concat _
      | verify =>
        rw [Tab.step, Tab.click] at hjob
        split_ifs at hjob with hkey
        · exact (hjobs job hjob).concat _
        · split at hjob
          · exact (hjobs job hjob).concat _
          · rcases List.mem_append.mp hjob with hjob | hjob
            · exact (hjobs job hjob).concat _
            · rw [List.mem_singleton.mp hjob]
              exact ⟨events, [], rfl, rfl, rfl⟩
      | fail k => exact (hjobs job (List.mem_of_mem_eraseIdx hjob)).concat _
      | reload => exact (List.not_mem_nil hjob).elim
      | finish k =>
        rw [Tab.step, Tab.finish] at hjob
        split at hjob
        · exact (hjobs job hjob).concat _
        · exact (hjobs job (List.mem_of_mem_eraseIdx hjob)).concat _
    · rcases List.mem_append.mp hjob with hjob | hjob
      · exact (hdone job hjob).concat _
      · cases e with
        | finish k =>
          have hmem := List.mem_of_getElem? (Option.mem_toList.mp hjob)
          exact (hjobs job hmem).concat _
        | _ => exact (List.not_mem_nil hjob).elim

/-! ## The key -/

omit [Platform] in
/-- The events that decide about the stored key. -/
def Event.onKey : Event → Bool
  | .verify | .forget => true
  | _ => false

omit [Platform] in
theorem Page.loadSecret_storedSecret (page : Page) : page.loadSecret.storedSecret = page.storedSecret := by
  unfold Page.loadSecret
  split <;> rfl

theorem Tab.step_storedSecret {e : Event} (he : e.onKey = false) (tab : Tab) :
    (tab.step e).page.storedSecret = tab.page.storedSecret := by
  cases e with
  | typeSecret s | typeMessage s | check remember | fail k => rfl
  | verify | forget => cases he
  | reload => exact Page.loadSecret_storedSecret _
  | finish k =>
    rw [Tab.step, Tab.finish]
    split
    · rfl
    · next job _ =>
      have hadvance (n : Number) : (tab.page.advance n).storedSecret = tab.page.storedSecret := by
        rw [Page.advance]
        split
        · rfl
        · split_ifs <;> rfl
      rw [Job.resume]
      split_ifs
      · exact hadvance _
      · rfl

/-- A stored key was in the field at the last click, with the box checked, and has not been forgotten
since. -/
theorem Tab.stored_key (tab : Tab) (events : List Event) {key : JSString}
    (h : (tab.run events).page.storedSecret = some key) :
    tab.page.storedSecret = some key ∧ (∀ e ∈ events, e.onKey = false) ∨
      ∃ front rest, events = front ++ .verify :: rest ∧ (∀ e ∈ rest, e.onKey = false) ∧
        (tab.run front).page.remember = true ∧ (tab.run front).page.secret = key := by
  induction events using List.reverseRecOn with
  | nil => exact .inl ⟨h, fun e he => (List.not_mem_nil he).elim⟩
  | append_singleton events e ih =>
    rw [run_concat] at h
    have hmore {rest : List Event} (he : e.onKey = false) (hrest : ∀ e ∈ rest, e.onKey = false) :
        ∀ e' ∈ rest ++ [e], e'.onKey = false := by
      intro e' he'
      rcases List.mem_append.mp he' with he' | he'
      · exact hrest e' he'
      · rw [List.mem_singleton.mp he']
        exact he
    cases he : e.onKey with
    | false =>
      rw [step_storedSecret he] at h
      rcases ih h with ⟨hstored, hnone⟩ | ⟨front, rest, rfl, hrest, hclick⟩
      · exact .inl ⟨hstored, hmore he hnone⟩
      · exact .inr ⟨front, rest ++ [e], by simp, hmore he hrest, hclick⟩
    | true =>
      cases e with
      | verify =>
        have hsaved : (tab.run events).click.page.storedSecret = some key := h
        rw [click_page, Page.saveSecretMaybe] at hsaved
        dsimp only at hsaved
        split_ifs at hsaved with hremember
        refine .inr ⟨events, [], rfl, fun e he => (List.not_mem_nil he).elim, hremember, ?_⟩
        exact Option.some.inj hsaved
      | forget => cases h
      | _ => cases he

/-- **Overlapping verifications are sequential.** However typing, clicks, completions, failures, forgetting
and reloading follow each other: at every moment the stored count is the greatest genuine count among
the verifications that have come to their end; each of them reports what it would have reported after
the others before it, with nobody else at the page; each is of the key and the text that were in the
fields at its own click; and a key is stored only as the last click has left it with the box checked. -/
theorem overlap_sequential {tab : Tab} (hidle : tab.jobs = []) (hfresh : tab.page.storedLastN = none)
    (events : List Event) (hcount : ∀ job ∈ tab.finished events, job.Countable) :
    (∀ front rest, events = front ++ rest →
      Holds (jobCounts (tab.finished front)) (tab.run front).page.storedLastN) ∧
    (∀ front k rest job, events = front ++ .finish k :: rest → (tab.run front).jobs[k]? = some job →
      (tab.run (front ++ [.finish k])).result = some
        (verify ((sequential tab.page (tab.finished front)).withKey job.secret) job.text).2) ∧
    (∀ job ∈ tab.finished events, tab.Clicked events job) ∧
    ∀ key, (tab.run events).page.storedSecret = some key →
      tab.page.storedSecret = some key ∧ (∀ e ∈ events, e.onKey = false) ∨
        ∃ front rest, events = front ++ .verify :: rest ∧ (∀ e ∈ rest, e.onKey = false) ∧
          (tab.run front).page.remember = true ∧ (tab.run front).page.secret = key := by
  have hnone : ∀ job ∈ tab.jobs, job.Sound := fun job hjob => by simp [hidle] at hjob
  have hclicked (front : List Event) := Tab.clicked_run hidle front
  refine ⟨fun front rest hsplit => ?_, fun front k rest job _ hjob => ?_, (hclicked events).2,
    fun key => tab.stored_key events⟩
  · have hfollows := Tab.follows_run hnone front
    rw [hfollows.stored]
    refine sequential_holds hfresh (Tab.sound_finished hnone front) fun job hjob => hcount job ?_
    rw [hsplit, Tab.finished_append]
    exact List.mem_append_left _ hjob
  · have hfollows := Tab.follows_run hnone front
    have hsound := hfollows.sound job (List.mem_of_getElem? hjob)
    rw [Tab.run_concat, Tab.step, Tab.finish, hjob, (hsound.resume (tab.run front).page
      hfollows.stored.symm).2]

/-- Two texts pasted quickly; the second one is computed first. -/
def overlapping (key first second : JSString) : List Event :=
  [.typeSecret key, .typeMessage first, .verify, .typeMessage second, .verify, .finish 1, .finish 0]

def freshTab : Tab := ⟨⟨[], false, none, none⟩, [], none, []⟩

theorem finished_overlapping {key first second : JSString} {p q : Parsed} (htrim : trim key = key)
    (hne : key ≠ []) (hp : parseMessage first = some p) (hq : parseMessage second = some q) :
    freshTab.finished (overlapping key first second) = [⟨key, second, q⟩, ⟨key, first, p⟩] := by
  simp [overlapping, freshTab, Tab.finished, Tab.completes, Tab.step, Tab.click, Tab.finish,
    Page.saveSecretMaybe, htrim, hne, hp, hq]

end Events

section
open AppsScript

theorem overlap_sequential_two :
    Holds {2, 1} (freshTab.run (overlapping (js "key") (Signer.signedText (js "key") 1 (js "SPY 512.30"))
      (Signer.signedText (js "key") 2 (js "SPY 498.10")))).page.storedLastN := by
  have hfirst := genuine_signedText (js "key") (show 1 ≤ 2 ^ 53 by decide) (js "SPY 512.30")
  have hsecond := genuine_signedText (js "key") (show 2 ≤ 2 ^ 53 by decide) (js "SPY 498.10")
  have hp := parseMessage_signedText (js "key") (show 1 ≤ 2 ^ 53 by decide) (js "SPY 512.30")
  have hq := parseMessage_signedText (js "key") (show 2 ≤ 2 ^ 53 by decide) (js "SPY 498.10")
  generalize Signer.signedText (js "key") 1 (js "SPY 512.30") = first at *
  generalize Signer.signedText (js "key") 2 (js "SPY 498.10") = second at *
  have hfinished := finished_overlapping (show trim (js "key") = js "key" by decide) (by decide) hp hq
  have hcount : ∀ job ∈ freshTab.finished (overlapping (js "key") first second), job.Countable := by
    intro job hjob x hx
    rw [hfinished] at hjob
    rcases List.mem_cons.mp hjob with rfl | hjob
    · exact ⟨2, by decide, Option.some.inj (hx.symm.trans hsecond)⟩
    · rw [List.mem_singleton.mp hjob] at hx
      exact ⟨1, by decide, Option.some.inj (hx.symm.trans hfirst)⟩
  have h := (overlap_sequential (show freshTab.jobs = [] from rfl) rfl _ hcount).1 _ []
    (List.append_nil _).symm
  have hcounts : jobCounts (freshTab.finished (overlapping (js "key") first second)) = {2, 1} := by
    ext n
    have htwo : (n : ℚ) = 2 ↔ n = 2 := by norm_cast
    rw [hfinished]
    simp [jobCounts, hfirst, hsecond, eq_comm, htwo]
  rwa [hcounts] at h

end
end Spazito.Verifier
