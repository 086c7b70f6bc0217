import OmiLocal.Capture.Progress
import OmiLocal.Delivery.Store

/-!
# From the phone to the server

The outbox and the part store as one system. A body that the phone uploads may
get lost, arrive late or arrive many times; a call's receipt may get lost or
come back. Whatever happens, the parts that are still on the phone or already
published hold every recording packet by packet.
-/
namespace OmiLocal.Delivery
open Lib.Framing Lib.Json Lib.Transition Capture

/-! ## The system -/

/-- `sent` holds the bodies that ever left the phone. -/
structure System (py : Python) where
  phone : Phone
  server : Server py
  sent : List Bytes

inductive SystemAction
  | phone (a : PhoneAction)
  | upload
  | server (a : ServerAction)
  | receipt (call : Nat)

/-- Both sides are new: no file, no directory. -/
def System.init {py : Python} (s : System py) : Prop :=
  s.phone = newPhone ∧ s.server = ⟨fun _ => none, []⟩ ∧ s.sent = []

/-- A receipt that the phone sees was returned by some call; a call's body was uploaded at some time. -/
inductive System.step (env : Env) (limits : Limits) : System env.py → SystemAction → System env.py → Prop
  | phone (s : System env.py) (a : PhoneAction) {p : Phone} (inner : ∀ id digest, a ≠ .acknowledge id digest)
      (done : perform limits env.sha256 s.phone a = some p) :
      System.step env limits s (.phone a) ⟨p, s.server, s.sent⟩
  | upload (s : System env.py) {rest : List Uuid} {id : Uuid} {body : Bytes}
      (current : s.phone.drain = some ⟨rest, some (id, body), false⟩) :
      System.step env limits s .upload ⟨s.phone, s.server, s.sent ++ [body]⟩
  | server (s : System env.py) (a : ServerAction) {t : Server env.py}
      (delivered : ∀ body, a = .accept body → body ∈ s.sent) (done : Server.step env s.server a t) :
      System.step env limits s (.server a) ⟨s.phone, t, s.sent⟩
  | receipt (s : System env.py) (k : Nat) {call : Call env.py} {plan : Plan env.py} {receipt : Receipt} {p : Phone}
      (found : s.server.calls[k]? = some call) (returned : call.phase = .returned plan receipt)
      (done : perform limits env.sha256 s.phone (.acknowledge receipt.id receipt.sha256) = some p) :
      System.step env limits s (.receipt k) ⟨p, s.server, s.sent⟩

/-! ## What can be seen of a recording -/

def Plan.view {py : Python} (plan : Plan py) : PartView :=
  ⟨plan.id, plan.text "recording_id", ((intField "index" plan.fields).getD 0).toNat, plan.fresh⟩

/-- The directory is the finished publication of a body, and these are the packets its audio was decoded from. -/
def Shows (env : Env) (d : Directory) (view : PartView) : Prop :=
  ∃ (plan : Plan env.py) (pcm : Bytes) (now : String), Decodes env plan pcm ∧
    d = plan.publication env.sha256 pcm now ∧ view = plan.view

/-- A part that is still a file of the outbox, or published. -/
def Visible (env : Env) (s : System env.py) (view : PartView) : Prop :=
  (∃ f ∈ s.phone.files, partView f.content = some view) ∨
    ∃ id d, s.server.captures id = some d ∧ Shows env d view

/-! ## The server reads what the phone wrote -/

section Reading

variable {env : Env} {limits : Limits} {before : List Packet} {part : Part}

/-- `json.loads` reads back what `jsonEncode` wrote. -/
def ReadsHeaders (py : Python) : Prop := ∀ h : Header, py.loads h.encode = some (.obj h.fields)

/-- The plan of a sealed part shows exactly what its file showed. -/
theorem plan_view {plan : Plan env.py} (reads : ReadsHeaders env.py) (ok : PartOk limits before part)
    (done : Sealed part plan.body) :
    ∃ kept, kept <+: part.extra.toList ∧ plan.view = part.view kept ∧ partView plan.body = some (part.view kept) := by
  obtain ⟨kept, within, some, same⟩ := done
  have shown := partView_sealed ok within same
  refine ⟨kept, within, ?_, shown⟩
  obtain ⟨-, read, framed, preroll, valid⟩ := parsePart_ok plan.parsed
  have whole : plan.body = envelope part.header ++ encodeAll be32 (part.preroll ++ (part.fresh ++ kept)) := by
    rw [same, opening]
    simp
  obtain ⟨-, size, text, rest⟩ := envelope_parts part.header ok.countable
    (encodeAll be32 (part.preroll ++ (part.fresh ++ kept)))
  have length := congrArg List.length whole
  rw [← whole] at size text rest
  rw [size, text, reads] at read
  have fields : plan.fields = part.header.fields := (Value.obj.inj (Option.some.inj read)).symm
  have inside : ∀ p ∈ part.preroll ++ (part.fresh ++ kept), p ∈ part.preroll ++ part.begun := by
    intro p member
    rcases List.mem_append.mp member with h | h
    · exact List.mem_append_left _ h
    · refine List.mem_append_right _ ?_
      rcases List.mem_append.mp h with h | h
      · exact List.mem_append_left _ h
      · exact List.mem_append_right _ (within.subset h)
  have few : (part.preroll ++ (part.fresh ++ kept)).length ≤ maxFrames := by
    have := ok.room
    have := within.length_le
    simp only [Part.begun, List.length_append] at *
    unfold maxPartPackets at *
    unfold maxFrames
    omega
  have frames : plan.frames = part.preroll ++ (part.fresh ++ kept) := by
    rw [size, rest, readFrames_encodeAll (fun p h => ok.fits p (inside p h)) ?_ (by omega)] at framed
    · exact (Except.ok.inj framed).symm
    · have := length_le_encodeAll be32 (part.preroll ++ (part.fresh ++ kept)) (by decide)
      have size : (envelope part.header ++ encodeAll be32 (part.preroll ++ (part.fresh ++ kept))).length = _ :=
        List.length_append
      omega
  have count : plan.preroll = part.preroll.length := by
    rw [Plan.preroll, valid, Except.toOption, Option.getD_some]
    rw [fields] at valid
    exact (validatePreroll_count valid).trans ok.count
  rw [Plan.view, Plan.id, Plan.text, Plan.fresh, count, frames, List.drop_left, fields]
  rfl

end Reading

/-! ## The invariant -/

/-- What left the phone is fixed, only that reaches the store, and a part whose file is gone is published. -/
structure SystemOk (env : Env) (limits : Limits) (parts : List Part) (s : System env.py) : Prop where
  phone : Inv limits parts s.phone
  server : ServerOk env s.server
  origin : Origin env (fun _ => none) s.server
  sent : ∀ body ∈ s.sent, ∃ id, SentAs parts s.phone.files id body
  calls : ∀ call ∈ s.server.calls, call.body ∈ s.sent
  safe : ∀ q ∈ parts, (∃ f ∈ s.phone.files, f.id = q.id) ∨ s.server.captures q.id.text ≠ none

section Invariant

variable {env : Env} {limits : Limits} {parts : List Part} {s t : System env.py}

/-- A step of the phone, given that every file that goes away is published. -/
theorem SystemOk.on_phone {a : PhoneAction} {p : Phone} (ok : SystemOk env limits parts s)
    (done : perform limits env.sha256 s.phone a = some p)
    (published : ∀ id, Acknowledged env.sha256 s.phone a id → s.server.captures id.text ≠ none) :
    ∃ parts', SystemOk env limits parts' ⟨p, s.server, s.sent⟩ := by
  obtain ⟨parts', next, moves⟩ := perform_step ok.phone done
  refine ⟨parts', next, ok.server, ok.origin, fun body member => ?_, ok.calls, fun q hq => ?_⟩
  · obtain ⟨id, sent⟩ := ok.sent body member
    exact ⟨id, sent.moves moves⟩
  · rcases moves.present q hq with there | gone | ⟨⟨q', hq', same⟩, away⟩
    · exact .inl there
    · exact .inr (published q.id gone)
    · refine .inr ?_
      rcases ok.safe q' hq' with ⟨f, hf, mine⟩ | there
      · exact absurd (mine.trans same) (away f hf)
      · rw [← same]
        exact there

theorem sealed_header {q : Part} {before : List Packet} {body : Bytes} {fields : Fields} {preroll start : Nat}
    (ok : PartOk limits before q) (done : Sealed q body) (read : header body = .ok (fields, preroll, start)) :
    fields = q.header.fields := by
  obtain ⟨kept, -, -, rfl⟩ := done
  rw [opening, List.append_assoc] at read
  exact (header_envelope ok.countable read).1

/-- A receipt is given only for a published part. -/
theorem SystemOk.receipt {k : Nat} {call : Call env.py} {plan : Plan env.py} {receipt : Receipt}
    (ok : SystemOk env limits parts s) (found : s.server.calls[k]? = some call)
    (returned : call.phase = .returned plan receipt) (id : Uuid)
    (gone : Acknowledged env.sha256 s.phone (.acknowledge receipt.id receipt.sha256) id) :
    s.server.captures id.text ≠ none := by
  obtain ⟨text, digest, rest, body, fields, preroll, start, same, current, read, named, -⟩ := gone
  cases same
  obtain ⟨q, hq, rfl, done, -⟩ := (ok.phone.drain _ current).current id body rfl
  obtain ⟨before, partOk⟩ := ok.phone.ledger.part_ok hq
  rw [sealed_header partOk done read, Header.id_field] at named
  have phase := (ok.server call (List.mem_of_getElem? found)).phase
  rw [returned] at phase
  obtain ⟨-, receiptIs, d, stored, -⟩ := phase
  have idIs : q.id.text = plan.id := (Option.some.inj named).trans (by rw [receiptIs])
  rw [idIs, stored]
  exact Option.some_ne_none d

theorem systemOk_step {a : SystemAction} (ok : SystemOk env limits parts s) (step : System.step env limits s a t) :
    ∃ parts', SystemOk env limits parts' t := by
  cases step with
  | phone a inner done =>
      refine ok.on_phone done fun id gone => ?_
      obtain ⟨text, digest, rest, body, fields, preroll, start, same, -⟩ := gone
      exact absurd same (inner text digest)
  | upload current =>
      rename_i rest id body
      refine ⟨parts, ok.phone, ok.server, ok.origin, fun body' member => ?_, fun call member => ?_, ok.safe⟩
      · rcases List.mem_append.mp member with old | new
        · exact ok.sent body' old
        · rw [List.mem_singleton.mp new]
          exact ⟨id, (ok.phone.drain _ current).current id body rfl⟩
      · exact List.mem_append_left _ (ok.calls call member)
  | server a delivered done =>
      obtain ⟨grows, next⟩ := serverOk_step ok.server done
      refine ⟨parts, ok.phone, next, origin_step ok.server ok.origin done, ok.sent, fun call member => ?_, fun q hq => ?_⟩
      · cases done with
        | accept body =>
            rcases List.mem_append.mp member with old | new
            · exact ok.calls call old
            · rw [List.mem_singleton.mp new]
              exact delivered body rfl
        | advance k io found =>
            rename_i current
            rcases List.mem_or_eq_of_mem_set member with old | rfl
            · exact ok.calls call old
            · rw [(advanceCall_body io s.server.captures current).1]
              exact ok.calls current (List.mem_of_getElem? found)
      · refine (ok.safe q hq).imp (fun h => h) fun there absent => ?_
        cases here : s.server.captures q.id.text with
        | none => exact there here
        | some d =>
            rw [grows.keeps here] at absent
            cases absent
  | receipt k found returned done => exact ok.on_phone done (ok.receipt found returned)

theorem systemOk_run (run : Reachable System.init (System.step env limits) s) :
    ∃ parts, SystemOk env limits parts s := by
  refine run.invariant (I := fun s => ∃ parts, SystemOk env limits parts s) ?_ ?_
  · rintro ⟨p, server, sent⟩ ⟨rfl, rfl, rfl⟩
    refine ⟨[], newPhone_inv limits, fun call h => ?_, fun id d h => ?_, fun body h => ?_, fun call h => ?_,
      fun q h => ?_⟩
    · exact absurd h List.not_mem_nil
    · cases h
    · exact absurd h List.not_mem_nil
    · exact absurd h List.not_mem_nil
    · exact absurd h List.not_mem_nil
  · rintro s a t ⟨parts, ok⟩ step
    exact systemOk_step ok step

end Invariant

/-! ## Every part is seen once -/

theorem uuid_eq_of_text {a b : Uuid} (same : a.text = b.text) : a = b := by
  cases a
  cases b
  cases same
  rfl

theorem Shows.unique {env : Env} {d : Directory} {v v' : PartView} (collisionFree : Function.Injective env.sha256)
    (shown : Shows env d v) (shown' : Shows env d v') : v = v' := by
  obtain ⟨plan, pcm, now, -, rfl, rfl⟩ := shown
  obtain ⟨plan', pcm', now', -, same, rfl⟩ := shown'
  have digest : some (env.sha256 plan.body) = some (env.sha256 plan'.body) :=
    congrArg (fun d : Directory => (d.metadata.bind Metadata.delivery).map DeliveryRecord.sha256) same
  rw [Plan.eq_of_body (collisionFree (Option.some.inj digest))]

section Views

variable {env : Env} {limits : Limits} {parts : List Part} {s : System env.py}

theorem SystemOk.file_view (ok : SystemOk env limits parts s) {f : PartFile} (member : f ∈ s.phone.files) {v : PartView}
    (shown : partView f.content = some v) :
    ∃ q ∈ parts, q.id = f.id ∧ ∃ kept, kept <+: q.extra.toList ∧ v = q.view kept := by
  obtain ⟨q, hq, same, unsealed, sealed_⟩ := ok.phone.files.held f member
  obtain ⟨before, partOk⟩ := ok.phone.ledger.part_ok hq
  have content : Content q f.content := by
    cases ready : f.ready with
    | false => exact unsealed ready
    | true => exact (sealed_ ready).content
  refine ⟨q, hq, same, ?_⟩
  rcases partView_content partOk content with ⟨none, -⟩ | ⟨kept, within, found⟩
  · rw [none] at shown
    cases shown
  · rw [found] at shown
    exact ⟨kept, within, (Option.some.inj shown).symm⟩

/-- A published part, and its file if that is still there. -/
theorem SystemOk.shown_view (ok : SystemOk env limits parts s) (reads : ReadsHeaders env.py) {id : String} {d : Directory}
    (here : s.server.captures id = some d) :
    ∃ v, Shows env d v ∧ ∃ q ∈ parts, q.id.text = id ∧ (∃ kept, kept <+: q.extra.toList ∧ v = q.view kept) ∧
      ∀ f ∈ s.phone.files, f.id = q.id → partView f.content = some v := by
  rcases ok.origin id d here with never | ⟨call, member, -, plan, pcm, now, same, idIs, decodes, rfl⟩
  · cases never
  · obtain ⟨partId, q, hq, rfl, done, fixed⟩ := ok.sent call.body (ok.calls call member)
    obtain ⟨before, partOk⟩ := ok.phone.ledger.part_ok hq
    obtain ⟨kept, within, view, file⟩ := plan_view reads partOk (same ▸ done)
    refine ⟨plan.view, ⟨plan, pcm, now, decodes, rfl, rfl⟩, q, hq, ?_, ⟨kept, within, view⟩, fun f hf mine => ?_⟩
    · rw [← idIs]
      exact (congrArg PartView.id view).symm
    · rw [(fixed f hf mine).2, ← same, view]
      exact file

/-- What a part shows: nothing before its header is complete, and then one view. -/
theorem SystemOk.part_view (ok : SystemOk env limits parts s) (reads : ReadsHeaders env.py)
    (collisionFree : Function.Injective env.sha256) {q : Part} (hq : q ∈ parts) :
    q.begun = [] ∧ (∀ v, Visible env s v → v.id ≠ q.id.text) ∨
      ∃ kept, kept <+: q.extra.toList ∧ ∀ v, Visible env s v ∧ v.id = q.id.text ↔ v = q.view kept := by
  have ofFile : ∀ f ∈ s.phone.files, ∀ v, partView f.content = some v → v.id = q.id.text → f.id = q.id := by
    intro f hf v shown named
    obtain ⟨q', hq', same, kept, -, rfl⟩ := ok.file_view hf shown
    rw [← same]
    exact uuid_eq_of_text named
  have ofDirectory : ∀ id d v, s.server.captures id = some d → Shows env d v → v.id = q.id.text →
      id = q.id.text ∧ (∃ kept, kept <+: q.extra.toList ∧ v = q.view kept) ∧
      ∀ f ∈ s.phone.files, f.id = q.id → partView f.content = some v := by
    intro id d v here shown named
    obtain ⟨v', shown', q', hq', idIs, ⟨kept, within, view⟩, file⟩ := ok.shown_view reads here
    obtain rfl := shown.unique collisionFree shown'
    have same : q' = q := by
      refine ok.phone.ledger.eq_of_id hq' hq (uuid_eq_of_text ?_)
      rw [view] at named
      exact named
    subst same
    exact ⟨idIs.symm, ⟨kept, within, view⟩, file⟩
  by_cases there : ∃ f ∈ s.phone.files, f.id = q.id
  · obtain ⟨f, hf, mine⟩ := there
    have onlyFile : ∀ v, Visible env s v → v.id = q.id.text → partView f.content = some v := by
      rintro v (⟨f', hf', shown⟩ | ⟨id, d, here, shown⟩) named
      · rw [eq_of_file_id ok.phone.files.ids hf hf' (mine.trans (ofFile f' hf' v shown named).symm)]
        exact shown
      · exact (ofDirectory id d v here shown named).2.2 f hf mine
    obtain ⟨q', hq', same, unsealed, sealed_⟩ := ok.phone.files.held f hf
    obtain rfl : q' = q := ok.phone.ledger.eq_of_id hq' hq (same.trans mine)
    obtain ⟨before, partOk⟩ := ok.phone.ledger.part_ok hq'
    have content : Content q' f.content := by
      cases ready : f.ready with
      | false => exact unsealed ready
      | true => exact (sealed_ ready).content
    rcases partView_content partOk content with ⟨none, nothing⟩ | ⟨kept, within, found⟩
    · refine .inl ⟨nothing, fun v visible named => ?_⟩
      rw [onlyFile v visible named] at none
      cases none
    · refine .inr ⟨kept, within, fun v => ⟨fun h => ?_, ?_⟩⟩
      · have := onlyFile v h.1 h.2
        rw [found] at this
        exact (Option.some.inj this).symm
      · rintro rfl
        exact ⟨.inl ⟨f, hf, found⟩, rfl⟩
  · cases here : s.server.captures q.id.text with
    | none => exact ((ok.safe q hq).elim there fun h => h here).elim
    | some d =>
        obtain ⟨v, shown, q', hq', idIs, ⟨kept, within, view⟩, -⟩ := ok.shown_view reads here
        obtain rfl : q' = q := ok.phone.ledger.eq_of_id hq' hq (uuid_eq_of_text idIs)
        refine .inr ⟨kept, within, fun v' => ⟨?_, ?_⟩⟩
        · rintro ⟨⟨f, hf, shown'⟩ | ⟨id, d', here', shown'⟩, named⟩
          · exact absurd ⟨f, hf, ofFile f hf v' shown' named⟩ there
          · obtain ⟨rfl, -, -⟩ := ofDirectory id d' v' here' shown' named
            rw [here] at here'
            cases here'
            rw [← view]
            exact shown'.unique collisionFree shown
        · rintro rfl
          exact ⟨.inr ⟨_, d, here, view ▸ shown⟩, rfl⟩

theorem SystemOk.visible_part (ok : SystemOk env limits parts s) (reads : ReadsHeaders env.py)
    (collisionFree : Function.Injective env.sha256) {v : PartView} (visible : Visible env s v) :
    ∃ q ∈ parts, v.id = q.id.text ∧ v.recordingId = q.recordingId.text := by
  rcases visible with ⟨f, hf, shown⟩ | ⟨id, d, here, shown⟩
  · obtain ⟨q, hq, -, kept, -, rfl⟩ := ok.file_view hf shown
    exact ⟨q, hq, rfl, rfl⟩
  · obtain ⟨v', shown', q, hq, -, ⟨kept, -, view⟩, -⟩ := ok.shown_view reads here
    obtain rfl := shown.unique collisionFree shown'
    exact ⟨q, hq, by rw [view]; rfl, by rw [view]; rfl⟩

open Classical in
/-- What can be seen of a part. -/
noncomputable def seen (env : Env) (s : System env.py) (q : Part) : Option PartView :=
  if h : ∃ v, Visible env s v ∧ v.id = q.id.text then some h.choose else none

theorem SystemOk.seen_part (ok : SystemOk env limits parts s) (reads : ReadsHeaders env.py)
    (collisionFree : Function.Injective env.sha256) {q : Part} (hq : q ∈ parts) :
    q.begun = [] ∧ seen env s q = none ∨ ∃ kept, kept <+: q.extra.toList ∧ seen env s q = some (q.view kept) := by
  rcases ok.part_view reads collisionFree hq with ⟨nothing, unseen⟩ | ⟨kept, within, one⟩
  · exact .inl ⟨nothing, dif_neg fun ⟨v, visible, named⟩ => unseen v visible named⟩
  · have found : ∃ v, Visible env s v ∧ v.id = q.id.text := ⟨q.view kept, (one _).mpr rfl⟩
    refine .inr ⟨kept, within, ?_⟩
    rw [← (one _).mp found.choose_spec]
    exact dif_pos found

theorem SystemOk.seen_iff (ok : SystemOk env limits parts s) (reads : ReadsHeaders env.py)
    (collisionFree : Function.Injective env.sha256) {q : Part} (hq : q ∈ parts) (v : PartView) :
    seen env s q = some v ↔ Visible env s v ∧ v.id = q.id.text := by
  rcases ok.part_view reads collisionFree hq with ⟨-, unseen⟩ | ⟨kept, -, one⟩
  · rw [show seen env s q = none from dif_neg fun ⟨v, visible, named⟩ => unseen v visible named]
    exact ⟨nofun, fun h => absurd h.2 (unseen v h.1)⟩
  · have found : ∃ v, Visible env s v ∧ v.id = q.id.text := ⟨q.view kept, (one _).mpr rfl⟩
    rw [show seen env s q = some found.choose from dif_pos found, (one _).mp found.choose_spec, one, Option.some_inj]
    exact eq_comm

/-- Parts in order, each seen as far as it goes, are all persisted packets and at most the last one begun. -/
theorem assembled {seen : Part → Option PartView}
    (order : parts.Pairwise fun a b => a.header.index < b.header.index ∧ a.extra = none)
    (each : ∀ q ∈ parts, q.begun = [] ∧ seen q = none ∨
      ∃ kept, kept <+: q.extra.toList ∧ seen q = some (q.view kept)) :
    (parts.filterMap seen).flatMap PartView.fresh = parts.flatMap Part.fresh ∨ ∃ packet,
      parts.flatMap Part.begun = parts.flatMap Part.fresh ++ [packet] ∧
      (parts.filterMap seen).flatMap PartView.fresh = parts.flatMap Part.fresh ++ [packet] := by
  induction parts with
  | nil => exact .inl rfl
  | cons q rest ih =>
      obtain ⟨above, order⟩ := List.pairwise_cons.mp order
      have back := ih order fun q' h => each q' (List.mem_cons_of_mem q h)
      have front : (([q].filterMap seen).flatMap PartView.fresh = q.fresh) ∨ ∃ packet, q.extra = some packet ∧
          ([q].filterMap seen).flatMap PartView.fresh = q.fresh ++ [packet] := by
        rcases each q List.mem_cons_self with ⟨nothing, unseen⟩ | ⟨kept, within, seenAs⟩
        · left
          simp [unseen, (List.append_eq_nil_iff.mp nothing).1]
        · cases kept with
          | nil =>
              left
              simp [seenAs, Part.view]
          | cons packet others =>
              right
              cases extra : q.extra with
              | none =>
                  rw [extra] at within
                  cases List.prefix_nil.mp within
              | some last =>
                  rw [extra] at within
                  obtain ⟨rfl, none⟩ := List.cons_prefix_cons.mp within
                  refine ⟨packet, rfl, ?_⟩
                  simp [seenAs, Part.view, List.prefix_nil.mp none]
      have split : ((q :: rest).filterMap seen).flatMap PartView.fresh =
          ([q].filterMap seen).flatMap PartView.fresh ++ (rest.filterMap seen).flatMap PartView.fresh := by
        rw [← List.flatMap_append, ← List.filterMap_append]
        rfl
      rw [split, List.flatMap_cons, List.flatMap_cons]
      cases rest with
      | nil =>
          rcases front with same | ⟨packet, extra, same⟩
          · exact .inl (by simp [same])
          · exact .inr ⟨packet, by simp [Part.begun, extra], by simp [same]⟩
      | cons next others =>
          have clean := (above next List.mem_cons_self).2
          have same : ([q].filterMap seen).flatMap PartView.fresh = q.fresh := by
            apply front.resolve_right
            rintro ⟨packet, extra, -⟩
            rw [clean] at extra
            cases extra
          have whole : q.begun = q.fresh := by simp [Part.begun, clean]
          rw [same, whole]
          refine back.imp (fun h => by rw [h]) ?_
          rintro ⟨packet, began, shown⟩
          exact ⟨packet, by rw [began, List.append_assoc], by rw [shown, List.append_assoc]⟩

end Views

/-- Recorded audio is neither lost, duplicated nor reordered. In every state of every run, the parts of a recording
that are on the phone or published have distinct identities and a strict order, and their fresh packets in this order
are the packets whose callback ran, followed by at most the one packet whose writing had begun. -/
theorem recorded_audio_conserved (env : Env) (limits : Limits) (reads : ReadsHeaders env.py)
    (collisionFree : Function.Injective env.sha256) {s : System env.py}
    (run : Reachable System.init (System.step env limits) s) (recordingId : Uuid) :
    ∃ views : List PartView, (∀ v, v ∈ views ↔ Visible env s v ∧ v.recordingId = recordingId.text) ∧
      (views.map PartView.id).Nodup ∧ views.Pairwise (fun a b => a.index < b.index) ∧
      (views.flatMap PartView.fresh = logOf s.phone.persisted recordingId ∨ ∃ packet,
        logOf s.phone.begun recordingId = logOf s.phone.persisted recordingId ++ [packet] ∧
        views.flatMap PartView.fresh = logOf s.phone.persisted recordingId ++ [packet]) := by
  obtain ⟨parts, ok⟩ := systemOk_run run
  have ledger := ok.phone.ledger
  have each := fun q hq => ok.seen_part reads collisionFree (q := q) hq
  have mine : ∀ q ∈ ofRecording parts recordingId, q ∈ parts ∧ q.recordingId = recordingId := fun q h => by
    simpa [ofRecording] using h
  have order : (ofRecording parts recordingId).Pairwise fun a b => a.header.index < b.header.index ∧ a.extra = none := by
    refine (ledger.order.sublist List.filter_sublist).imp_of_mem fun {a b} ha hb rule => ?_
    exact rule ((mine a ha).2.trans (mine b hb).2.symm)
  have ids : (ofRecording parts recordingId).Pairwise fun a b => a.id ≠ b.id :=
    (List.pairwise_map.mp ledger.ids).sublist List.filter_sublist
  have view : ∀ q ∈ ofRecording parts recordingId, ∀ v, seen env s q = some v → v.id = q.id.text ∧ v.index = q.header.index ∧
      v.recordingId = recordingId.text := by
    intro q hq v found
    rcases each q (mine q hq).1 with ⟨-, unseen⟩ | ⟨kept, -, same⟩
    · rw [unseen] at found
      cases found
    · rw [same] at found
      cases found
      exact ⟨rfl, rfl, by rw [← (mine q hq).2]; rfl⟩
  refine ⟨(ofRecording parts recordingId).filterMap (seen env s), fun v => ?_, ?_, ?_, ?_⟩
  · rw [List.mem_filterMap]
    constructor
    · rintro ⟨q, hq, found⟩
      exact ⟨((ok.seen_iff reads collisionFree (mine q hq).1 v).mp found).1, (view q hq v found).2.2⟩
    · rintro ⟨visible, named⟩
      obtain ⟨q, hq, idIs, recording⟩ := ok.visible_part reads collisionFree visible
      refine ⟨q, ?_, (ok.seen_iff reads collisionFree hq v).mpr ⟨visible, idIs⟩⟩
      have same : q.recordingId = recordingId := uuid_eq_of_text (recording.symm.trans named)
      simpa [ofRecording] using ⟨hq, same⟩
  · refine List.pairwise_map.mpr (List.Pairwise.filterMap _ ?_ (List.Pairwise.and_mem.mp ids))
    rintro a b ⟨ha, hb, ne⟩ v found v' found' same
    refine ne (uuid_eq_of_text ?_)
    rw [← (view a ha v found).1, ← (view b hb v' found').1]
    exact same
  · refine List.Pairwise.filterMap _ ?_ (List.Pairwise.and_mem.mp order)
    rintro a b ⟨ha, hb, less, -⟩ v found v' found'
    rw [(view a ha v found).2.1, (view b hb v' found').2.1]
    exact less
  · rw [ledger.persisted, ledger.begun]
    exact assembled order fun q hq => each q (mine q hq).1

theorem reaches_local {env : Env} {limits : Limits} {p p' : Phone} (server : Server env.py) (sent : List Bytes)
    (run : Reaches (localStep limits env.sha256) p p') :
    Reaches (System.step env limits) ⟨p, server, sent⟩ ⟨p', server, sent⟩ := by
  induction run with
  | refl => exact .refl
  | tail _ last ih =>
      obtain ⟨a, done, inner⟩ := last
      exact ih.tail ⟨.phone a, .phone _ a inner done⟩

theorem sample_collisionFree : Function.Injective sampleEnv.sha256 := by
  have code : ∀ b : UInt8, (Char.ofNat b.toNat).toNat = b.toNat := by
    intro b
    have := b.toNat_lt
    have small : b.toNat.isValidChar := .inl (by omega)
    rw [Char.ofNat, dif_pos small]
    rfl
  have each : Function.Injective fun b : UInt8 => Char.ofNat b.toNat := by
    intro a b same
    have := congrArg Char.toNat same
    rw [code, code] at this
    exact UInt8.toNat_inj.mp this
  intro a b same
  have texts := congrArg String.toList same
  simp only [sampleEnv, String.toList_ofList] at texts
  exact List.map_injective_iff.mpr each texts

/-- After the first packet of a recording and a termination, the outbox shows exactly this packet. -/
theorem recorded_audio_conserved_first_packet : ∃ s : System python,
    Reachable System.init (System.step sampleEnv defaultLimits) s ∧ s.phone.recordings = [] ∧ ∃ views : List PartView,
      (∀ v, v ∈ views ↔ Visible sampleEnv s v ∧ v.recordingId = sampleHeader.recordingId.text) ∧
      views.flatMap PartView.fresh = [[1, 2]] := by
  let r := startedRecording sampleHeader.recordingId sampleHeader.serverId
  let shelf : Shelf := ⟨[], 0, 0, [sampleHeader.recordingId], [], []⟩
  have added : Reaches (localStep defaultLimits sampleEnv.sha256) (shelf.phone r [] .start 0)
      ((shelf.added r sampleHeader.id sampleTime [1, 2]).phone
        (countPacket (openedRecording r sampleHeader.id sampleTime) [1, 2] 62) [] .start 0) := by
    refine reaches_added (startedRecording_between _ _) ?_ ?_ ?_ rfl ?_ ?_
    · decide
    · exact nofun
    · decide
    · decide
    · decide +kernel
  have stopped : Reaches (localStep defaultLimits sampleEnv.sha256)
      ((shelf.added r sampleHeader.id sampleTime [1, 2]).phone
        (countPacket (openedRecording r sampleHeader.id sampleTime) [1, 2] 62) [] .start 0) _ :=
    .single ⟨.terminate, rfl, nofun⟩
  have started : Reaches (localStep defaultLimits sampleEnv.sha256) newPhone (shelf.phone r [] .start 0) :=
    reaches_started sampleHeader.recordingId sampleHeader.serverId
  have run := started.trans (added.trans stopped)
  have reachable : Reachable System.init (System.step sampleEnv defaultLimits) _ :=
    (Reachable.start ⟨rfl, rfl, rfl⟩).after (reaches_local ⟨fun _ => none, []⟩ [] run)
  obtain ⟨views, all, -, -, packets⟩ := recorded_audio_conserved sampleEnv defaultLimits
    (fun h => h.loads_encode) sample_collisionFree reachable sampleHeader.recordingId
  refine ⟨_, reachable, rfl, views, all, ?_⟩
  rcases packets with same | ⟨packet, more, -⟩
  · exact same
  · cases more

end OmiLocal.Delivery
