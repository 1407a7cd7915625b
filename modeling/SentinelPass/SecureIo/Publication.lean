import SentinelPass.SecureIo.PrivateDir

/-!
# Publication is atomic

In every run in which live processes have different ids, no call names a temporary file of
one of them and no process draws more than `2 ^ 64` temporary names:

* a file that has been renamed is complete, and stays as it is (`FsInv.nodes`);
* a write that has not renamed its file has it under its temporary name, and one that has
  renamed it has nothing there (`WriteOk`), so that its cleanup removes its own file or
  nothing;
* an entry of the directory, also one that is back after a loss of power, is a renamed file
  under the name it was written for, or a file under a temporary name (`EntryOk`).
-/

namespace SentinelPass.SecureIo

open Lib List Option Table Machine

/-! ## The runs -/

/-- No call of the run names a temporary file of the process. -/
def Fs.NamesApart (s : Fs) (pid : Nat) : Prop :=
  (∀ w ∈ s.writes, isTempOf pid w.name = false) ∧ ∀ r ∈ s.reads, isTempOf pid r.name = false

instance (s : Fs) (pid : Nat) : Decidable (s.NamesApart pid) := by
  unfold Fs.NamesApart
  infer_instance

/-- The process has not drawn all its temporary names. -/
def Fs.NamesLeft (s : Fs) (c : Nat) : Prop :=
  ∀ w ∈ s.writes[c]?, ∀ p ∈ s.processes[w.process]?, p.counter < 2 ^ 64

instance (s : Fs) (c : Nat) : Decidable (s.NamesLeft c) := by
  unfold Fs.NamesLeft
  infer_instance

/-- The steps of the runs: a process starts with an id that no live process has, and no call
names a temporary file of a process. -/
def Separate (s : Fs) : Action → Prop
  | .spawn pid => (∀ p ∈ s.processes, p.alive = true → p.pid ≠ pid) ∧ s.NamesApart pid
  | .beginWrite _ name _ _ => ∀ p ∈ s.processes, isTempOf p.pid name = false
  | .beginRead _ name _ => ∀ p ∈ s.processes, isTempOf p.pid name = false
  | .write c _ => s.NamesLeft c
  | _ => True

instance (s : Fs) : (a : Action) → Decidable (Separate s a)
  | .spawn _ | .beginWrite .. | .beginRead .. | .write .. => by
    unfold Separate
    infer_instance
  | .crash _ | .powerLoss _ _ | .read _ _ => .isTrue trivial

/-! ## The invariant -/

/-- An entry of the directory: a renamed file under its name, or a temporary name. -/
def EntryOk (s : Fs) (x : Text) (i : Nat) : Prop :=
  ∃ node w p, s.disk.nodes[i]? = some node ∧ s.writes[node.owner]? = some w ∧
    s.processes[w.process]? = some p ∧
    (x = w.name ∧ node.published = true ∨ ∃ k, x = tempName p.pid k)

/-- The write has its file, not yet renamed, under its temporary name. -/
def Owns (s : Fs) (c : Nat) (w : WriteCall) (k i : Nat) (node : Node) : Prop :=
  ∃ p, s.processes[w.process]? = some p ∧ k < p.counter ∧
    s.disk.dir.get? (tempName p.pid k) = some i ∧ s.disk.nodes[i]? = some node ∧
    node.owner = c ∧ node.published = false

def Gone (s : Fs) (w : WriteCall) (k : Nat) : Prop :=
  ∃ p, s.processes[w.process]? = some p ∧ k < p.counter ∧ s.disk.dir.get? (tempName p.pid k) = none

def WriteOk (s : Fs) (c : Nat) (w : WriteCall) : Prop :=
  match w.phase with
  | .checking | .drawing _ => w.changed = false
  | .writing k i written => w.changed = false ∧
      ∃ node, Owns s c w k i node ∧ node.content = w.bytes.take written
  | .ready k i => w.changed = false ∧
      ∃ node, Owns s c w k i node ∧ node.content = w.bytes ∧ node.synced = true
  | .cleanup k (some i) e => w.changed = false ∧ e ≠ .commitUncertain ∧ ∃ node, Owns s c w k i node
  | .renamed k => Gone s w k ∧ (w.publish = .createNew → w.replaced = some none)
  | .cleanup k none e => Gone s w k ∧ e = .commitUncertain
  | .done (.ok ()) => w.publish = .createNew → w.replaced = some none
  | .done (.error e) => e ≠ .commitUncertain → w.changed = false
  | .dead => True

/-- A read has what one write of the name passed, or a part of it. -/
def ReadOk (s : Fs) (r : ReadCall) : Prop :=
  match r.phase with
  | .opened i => ∃ node w, s.disk.nodes[i]? = some node ∧ node.published = true ∧
      s.writes[node.owner]? = some w ∧ w.name = r.name
  | .reading i got => ∃ node w, s.disk.nodes[i]? = some node ∧ node.published = true ∧
      s.writes[node.owner]? = some w ∧ w.name = r.name ∧ got = w.bytes.take got.length
  | .done (.ok b) => ∃ w ∈ s.writes, w.name = r.name ∧ w.bytes = b
  | _ => True

structure FsInv (s : Fs) : Prop where
  pids : ∀ (i j : Nat) (p q : Process), s.processes[i]? = some p → s.processes[j]? = some q →
    p.alive = true → q.alive = true → p.pid = q.pid → i = j
  apart : ∀ p ∈ s.processes, s.NamesApart p.pid
  owned : ∀ w ∈ s.writes, ∃ p, s.processes[w.process]? = some p ∧
    (w.phase.running = true → p.alive = true)
  nodes : ∀ (i : Nat) (node : Node), s.disk.nodes[i]? = some node →
    ∃ w, s.writes[node.owner]? = some w ∧
      (node.published = true → node.content = w.bytes ∧ node.synced = true)
  entries : ∀ dir ∈ s.disk.dir :: s.disk.past, ∀ (x : Text) (i : Nat), dir.get? x = some i →
    EntryOk s x i
  writes : ∀ (c : Nat) (w : WriteCall), s.writes[c]? = some w → WriteOk s c w
  reads : ∀ r ∈ s.reads, ReadOk s r

section Invariant

variable {s s' : Fs} {x : Text} {i : Nat}

theorem FsInv.ne_tempName (h : FsInv s) {w} (hw : w ∈ s.writes) {p} (hp : p ∈ s.processes) (k) :
    w.name ≠ tempName p.pid k := by
  intro heq
  have := (h.apart p hp).1 w hw
  rw [heq, isTempOf_tempName] at this
  exact absurd this nofun

theorem FsInv.published_of_entry (h : FsInv s) (hx : s.disk.dir.get? x = some i)
    (hname : ∀ p ∈ s.processes, isTempOf p.pid x = false) :
    ∃ node w, s.disk.nodes[i]? = some node ∧ node.published = true ∧
      s.writes[node.owner]? = some w ∧ w.name = x := by
  obtain ⟨node, w, p, hnode, hw, hp, hor⟩ := h.entries _ mem_cons_self x i hx
  rcases hor with ⟨rfl, hpub⟩ | ⟨k, rfl⟩
  · exact ⟨node, w, hnode, hpub, hw, rfl⟩
  · have := hname p (mem_of_getElem? hp)
    rw [isTempOf_tempName] at this
    exact absurd this nofun

/-- What every step keeps: processes with their ids, calls with what they were called with,
and files that have been renamed. -/
structure Keeps (s s' : Fs) : Prop where
  processes : ∀ (j : Nat) (q : Process), s.processes[j]? = some q →
    ∃ q', s'.processes[j]? = some q' ∧ q'.pid = q.pid ∧ q.counter ≤ q'.counter
  writes : ∀ (c : Nat) (v : WriteCall), s.writes[c]? = some v →
    ∃ v', s'.writes[c]? = some v' ∧ v'.process = v.process ∧ v'.name = v.name ∧ v'.bytes = v.bytes
  nodes : ∀ (i : Nat) (node : Node), s.disk.nodes[i]? = some node →
    ∃ node', s'.disk.nodes[i]? = some node' ∧ node'.owner = node.owner ∧
      (node.published = true → node' = node)

theorem Keeps.entryOk (h : Keeps s s') (he : EntryOk s x i) : EntryOk s' x i := by
  obtain ⟨node, w, p, hnode, hw, hp, hor⟩ := he
  obtain ⟨node', hnode', howner, hsame⟩ := h.nodes i node hnode
  obtain ⟨w', hw', hproc, hname, -⟩ := h.writes _ w hw
  obtain ⟨p', hp', hpid, -⟩ := h.processes _ p hp
  refine ⟨node', w', p', hnode', howner ▸ hw', hproc ▸ hp', ?_⟩
  rcases hor with ⟨hx, hpub⟩ | ⟨k, hx⟩
  · rw [hsame hpub, hname]
    exact .inl ⟨hx, hpub⟩
  · rw [hpid]
    exact .inr ⟨k, hx⟩

theorem Keeps.readOk (h : Keeps s s') {r} (hr : ReadOk s r) : ReadOk s' r := by
  unfold ReadOk at hr ⊢
  split at hr
  · obtain ⟨node, w, hnode, hpub, hw, hname⟩ := hr
    obtain ⟨node', hnode', -, hsame⟩ := h.nodes _ node hnode
    obtain ⟨w', hw', -, hname', -⟩ := h.writes _ w hw
    rw [hsame hpub] at hnode'
    exact ⟨node, w', hnode', hpub, hw', hname'.trans hname⟩
  · obtain ⟨node, w, hnode, hpub, hw, hname, hgot⟩ := hr
    obtain ⟨node', hnode', -, hsame⟩ := h.nodes _ node hnode
    obtain ⟨w', hw', -, hname', hbytes⟩ := h.writes _ w hw
    rw [hsame hpub] at hnode'
    exact ⟨node, w', hnode', hpub, hw', hname'.trans hname, hbytes ▸ hgot⟩
  · obtain ⟨w, hw, hname, hbytes⟩ := hr
    obtain ⟨c, hc⟩ := mem_iff_getElem?.mp hw
    obtain ⟨w', hw', -, hname', hbytes'⟩ := h.writes c w hc
    exact ⟨w', mem_of_getElem? hw', hname'.trans hname, hbytes'.trans hbytes⟩
  · trivial

end Invariant

/-! ## A system call of a write -/

/-- What a system call of the write `c` leaves to the others. -/
structure Footprint (s : Fs) (c : Nat) (w : WriteCall) (p : Process) (d : Disk) : Prop where
  nodes : ∀ (i : Nat) (node : Node), s.disk.nodes[i]? = some node →
    ∃ node', d.nodes[i]? = some node' ∧ node'.owner = node.owner ∧
      (node.owner ≠ c ∨ node.published = true → node' = node)
  own : ∀ (i : Nat) (node : Node), d.nodes[i]? = some node → s.disk.nodes[i]? = some node ∨
    node.owner = c ∧ (node.published = true → node.content = w.bytes ∧ node.synced = true)
  entries : ∀ dir ∈ d.dir :: d.past, ∀ (x : Text) (i : Nat), dir.get? x = some i →
    (∃ old ∈ s.disk.dir :: s.disk.past, old.get? x = some i) ∨
      ∃ node, d.nodes[i]? = some node ∧ node.owner = c ∧
        (x = w.name ∧ node.published = true ∨ ∃ k, x = tempName p.pid k)
  pending : ∀ (x : Text) (i : Nat) (node : Node), s.disk.dir.get? x = some i →
    s.disk.nodes[i]? = some node → node.owner ≠ c → node.published = false →
    d.dir.get? x = some i
  free : ∀ x, s.disk.dir.get? x = none →
    d.dir.get? x = none ∨ x = w.name ∨ x = tempName p.pid p.counter

variable {c : Nat} {s : Fs} {w : WriteCall} {s' : Fs}

theorem WriteOk.owns (h : WriteOk s c w) {k i : Nat}
    (hphase : (∃ n, w.phase = .writing k i n) ∨ w.phase = .ready k i ∨
      ∃ e, w.phase = .cleanup k (some i) e) : ∃ node, Owns s c w k i node := by
  unfold WriteOk at h
  rcases hphase with ⟨n, hp⟩ | hp | ⟨e, hp⟩
  · rw [hp] at h
    obtain ⟨-, node, howns, -⟩ := h
    exact ⟨node, howns⟩
  · rw [hp] at h
    obtain ⟨-, node, howns, -⟩ := h
    exact ⟨node, howns⟩
  · rw [hp] at h
    obtain ⟨-, -, node, howns⟩ := h
    exact ⟨node, howns⟩

theorem WriteOk.transfer (h : WriteOk s c w)
    (howns : ∀ {k i node}, Owns s c w k i node → Owns s' c w k i node)
    (hgone : ∀ {k}, w.phase.running = true → Gone s w k → Gone s' w k) : WriteOk s' c w := by
  unfold WriteOk at h ⊢
  split at h
  · exact h
  · exact h
  · obtain ⟨hchanged, node, hown, hcontent⟩ := h
    exact ⟨hchanged, node, howns hown, hcontent⟩
  · obtain ⟨hchanged, node, hown, hcontent⟩ := h
    exact ⟨hchanged, node, howns hown, hcontent⟩
  · obtain ⟨hchanged, he, node, hown⟩ := h
    exact ⟨hchanged, he, node, howns hown⟩
  · next hphase => exact ⟨hgone (by rw [hphase]; rfl) h.1, h.2⟩
  · next hphase => exact ⟨hgone (by rw [hphase]; rfl) h.1, h.2⟩
  · exact h
  · exact h
  trivial

theorem Keeps.writeOk (h : Keeps s s') (hdisk : s'.disk = s.disk) (hok : WriteOk s c w) :
    WriteOk s' c w := by
  refine hok.transfer ?_ ?_
  · rintro k i node ⟨p, hp, hk, hdir, hnode, hown⟩
    obtain ⟨p', hp', hpid, hcount⟩ := h.processes _ p hp
    rw [← hdisk] at hdir hnode
    exact ⟨p', hp', Nat.lt_of_lt_of_le hk hcount, hpid ▸ hdir, hnode, hown⟩
  · rintro k - ⟨p, hp, hk, hfree⟩
    obtain ⟨p', hp', hpid, hcount⟩ := h.processes _ p hp
    rw [← hdisk] at hfree
    exact ⟨p', hp', Nat.lt_of_lt_of_le hk hcount, hpid ▸ hfree⟩

section Write

variable {p : Process}

theorem Footprint.refl (p) : Footprint s c w p s.disk where
  nodes _ node hnode := ⟨node, hnode, rfl, fun _ => rfl⟩
  own _ _ hnode := .inl hnode
  entries dir hdir _ _ hx := .inl ⟨dir, hdir, hx⟩
  pending _ _ _ hx _ _ _ := hx
  free _ hx := .inl hx

theorem Footprint.forget (p) : Footprint s c w p { s.disk with past := [] } where
  nodes _ node hnode := ⟨node, hnode, rfl, fun _ => rfl⟩
  own _ _ hnode := .inl hnode
  entries dir hdir _ _ hx := by
    obtain rfl := mem_singleton.mp hdir
    exact .inl ⟨s.disk.dir, mem_cons_self, hx⟩
  pending _ _ _ hx _ _ _ := hx
  free _ hx := .inl hx

variable {c' i j k : Nat} {node : Node} {v : WriteCall}

theorem getElem?_modify_self {l : List Node} (h : l[i]? = some node) (f) :
    (l.modify i f)[i]? = some (f node) := by
  rw [getElem?_modify_eq, h]
  rfl

section

variable (hnode : s.disk.nodes[i]? = some node)

include hnode

/-- The own file, not yet renamed, changes: it stays the own one, and the others are as they
were. -/
theorem nodes_modify (howner : node.owner = c) (hpub : node.published = false) {f : Node → Node}
    (hf : (f node).owner = c) {other : Node} (hother : s.disk.nodes[j]? = some other) :
    ∃ node', (s.disk.nodes.modify i f)[j]? = some node' ∧ node'.owner = other.owner ∧
      (other.owner ≠ c ∨ other.published = true → node' = other) := by
  by_cases hij : i = j
  · subst hij
    cases hnode.symm.trans hother
    refine ⟨f node, getElem?_modify_self hnode f, hf.trans howner.symm, fun hor => ?_⟩
    rcases hor with hne | hp
    · exact absurd howner hne
    exact absurd (hpub.symm.trans hp) Bool.false_ne_true
  · exact ⟨other, (getElem?_modify_ne _ _ hij).trans hother, rfl, fun _ => rfl⟩

theorem own_modify {f other} (hother : (s.disk.nodes.modify i f)[j]? = some other) :
    s.disk.nodes[j]? = some other ∨ other = f node := by
  by_cases hij : i = j
  · subst hij
    rw [getElem?_modify_self hnode f] at hother
    exact .inr (some.inj hother).symm
  · exact .inl ((getElem?_modify_ne _ _ hij).symm.trans hother)

theorem Footprint.modify (howner : node.owner = c) (hpub : node.published = false) (f)
    (hf : (f node).owner = c ∧ (f node).published = false) :
    Footprint s c w p { s.disk with nodes := s.disk.nodes.modify i f } where
  nodes _ _ hother := nodes_modify hnode howner hpub hf.1 hother
  own j other hother := by
    rcases own_modify hnode hother with hold | rfl
    · exact .inl hold
    exact .inr ⟨hf.1, fun hp => absurd (hf.2.symm.trans hp) Bool.false_ne_true⟩
  entries dir hdir _ _ hx := .inl ⟨dir, hdir, hx⟩
  pending _ _ _ hx _ _ _ := hx
  free _ hx := .inl hx

end

theorem Footprint.create (hfree : s.disk.dir.get? (tempName p.pid p.counter) = none) :
    Footprint s c w p (s.disk.create (tempName p.pid p.counter) c) where
  nodes i node hnode := by
    exact ⟨node, getElem?_snoc.mpr (.inl hnode), rfl, fun _ => rfl⟩
  own i node hnode := by
    rcases getElem?_snoc.mp hnode with hnode | ⟨-, rfl⟩
    · exact .inl hnode
    exact .inr ⟨rfl, fun hp => absurd hp Bool.false_ne_true⟩
  entries dir hdir x i hx := by
    rcases mem_cons.mp hdir with rfl | hdir
    · change (s.disk.dir.upsert (tempName p.pid p.counter) _ _).get? x = some i at hx
      rw [get?_upsert, hfree] at hx
      split at hx
      · next hxe =>
        cases hx
        refine .inr ⟨⟨[], c, false, false⟩, ?_, rfl, .inr ⟨_, hxe⟩⟩
        exact getElem?_concat_length
      · exact .inl ⟨_, mem_cons_self, hx⟩
    · exact .inl ⟨dir, hdir, hx⟩
  pending x i node hx _ _ _ := by
    show (s.disk.dir.upsert (tempName p.pid p.counter) _ _).get? x = some i
    rw [get?_upsert, if_neg]
    · exact hx
    rintro rfl
    cases hfree.symm.trans hx
  free x hx := by
    by_cases hxe : x = tempName p.pid p.counter
    · exact .inr (.inr hxe)
    left
    show (s.disk.dir.upsert (tempName p.pid p.counter) _ _).get? x = none
    rw [get?_upsert, if_neg hxe, hx]

theorem Footprint.unlink (hown : ∀ i, s.disk.dir.get? (tempName p.pid k) = some i →
      ∃ node, s.disk.nodes[i]? = some node ∧ node.owner = c) :
    Footprint s c w p (s.disk.unlink (tempName p.pid k)) where
  nodes _ node hnode := ⟨node, hnode, rfl, fun _ => rfl⟩
  own _ _ hnode := .inl hnode
  entries dir hdir x i hx := by
    rcases mem_cons.mp hdir with rfl | hdir
    · change (s.disk.dir.erase (tempName p.pid k)).get? x = some i at hx
      rw [get?_erase] at hx
      split at hx
      · cases hx
      exact .inl ⟨_, mem_cons_self, hx⟩
    · exact .inl ⟨dir, hdir, hx⟩
  pending x i node hx hnode howner _ := by
    show (s.disk.dir.erase (tempName p.pid k)).get? x = some i
    rw [get?_erase, if_neg]
    · exact hx
    rintro rfl
    obtain ⟨own, hown, hc⟩ := hown i hx
    cases hown.symm.trans hnode
    exact howner hc
  free x hx := by
    left
    show (s.disk.dir.erase (tempName p.pid k)).get? x = none
    rw [get?_erase, hx, ite_self]

theorem Footprint.rename (hdir : s.disk.dir.get? (tempName p.pid k) = some i)
    (hnode : s.disk.nodes[i]? = some node) (howner : node.owner = c)
    (hpub : node.published = false) (hfull : node.content = w.bytes ∧ node.synced = true)
    (hname : ∀ j other, s.disk.dir.get? w.name = some j → s.disk.nodes[j]? = some other →
      other.published = true) :
    Footprint s c w p (s.disk.rename (tempName p.pid k) w.name i) where
  nodes _ _ hother := nodes_modify hnode howner hpub howner hother
  own j other hother := by
    rcases own_modify hnode hother with hold | rfl
    · exact .inl hold
    exact .inr ⟨howner, fun _ => hfull⟩
  entries dir hmem x j hx := by
    rcases mem_cons.mp hmem with rfl | hmem
    · change ((s.disk.dir.erase (tempName p.pid k)).upsert w.name i _).get? x = some j at hx
      rw [get?_upsert] at hx
      split at hx
      · next hxe =>
        have hj : i = j := by
          cases hold : (s.disk.dir.erase (tempName p.pid k)).get? w.name with
          | none => simpa [hold] using hx
          | some old => simpa [hold] using hx
        subst hj
        exact .inr ⟨{ node with published := true }, getElem?_modify_self hnode _, howner,
          .inl ⟨hxe, rfl⟩⟩
      · rw [get?_erase] at hx
        split at hx
        · cases hx
        exact .inl ⟨_, mem_cons_self, hx⟩
    · exact .inl ⟨dir, hmem, hx⟩
  pending x j other hx hother hne hunpub := by
    show ((s.disk.dir.erase (tempName p.pid k)).upsert w.name i _).get? x = some j
    rw [get?_upsert, if_neg, get?_erase, if_neg]
    · exact hx
    · rintro rfl
      cases hdir.symm.trans hx
      cases hnode.symm.trans hother
      exact hne howner
    · rintro rfl
      exact absurd (hunpub.symm.trans (hname j other hx hother)) Bool.false_ne_true
  free x hx := by
    by_cases hxe : x = w.name
    · exact .inr (.inl hxe)
    left
    show ((s.disk.dir.erase (tempName p.pid k)).upsert w.name i _).get? x = none
    rw [get?_upsert, if_neg hxe, get?_erase, hx, ite_self]

theorem WriteEffect.footprint {d' p' w'} (h : FsInv s) (hw : s.writes[c]? = some w)
    (hp : s.processes[w.process]? = some p) (hleft : p.counter < 2 ^ 64)
    (heff : WriteEffect s.disk p c w d' p' w') : Footprint s c w p d' := by
  have hok := h.writes c w hw
  cases heff with
  | searching _ _ _ => exact .refl p
  | created _ free =>
    rw [Nat.mod_eq_of_lt hleft] at free ⊢
    exact .create free
  | wrote before =>
    obtain ⟨node, q, hq, -, -, hnode, howner, hpub⟩ := hok.owns (.inl ⟨_, before⟩)
    exact .modify hnode howner hpub _ ⟨howner, hpub⟩
  | synced before _ =>
    obtain ⟨node, q, hq, -, -, hnode, howner, hpub⟩ := hok.owns (.inl ⟨_, before⟩)
    exact .modify hnode howner hpub _ ⟨howner, hpub⟩
  | abandoned _ _ => exact .refl p
  | @published k i j before there _ =>
    unfold WriteOk at hok
    rw [before] at hok
    obtain ⟨-, node, ⟨q, hq, -, hdir, hnode, howner, hpub⟩, hfull⟩ := hok
    cases hp.symm.trans hq
    cases there.symm.trans hdir
    refine .rename hdir hnode howner hpub hfull fun j other hj hother => ?_
    obtain ⟨node', v, hnode', hpub', -⟩ := h.published_of_entry hj fun q hq =>
      (h.apart q hq).1 w (mem_of_getElem? hw)
    cases hnode'.symm.trans hother
    exact hpub'
  | durable _ => exact .forget p
  | uncertain _ => exact .refl p
  | kept _ => exact .refl p
  | @cleaned k file e before =>
    refine .unlink fun i hi => ?_
    unfold WriteOk at hok
    rw [before] at hok
    cases file with
    | none =>
      obtain ⟨⟨q, hq, -, hgone⟩, -⟩ := hok
      cases hp.symm.trans hq
      exact absurd (hgone.symm.trans hi) nofun
    | some j =>
      obtain ⟨-, -, node, q, hq, -, hdir, hnode, howner, -⟩ := hok
      cases hp.symm.trans hq
      cases hi.symm.trans hdir
      exact ⟨node, hnode, howner⟩

def Fs.wrote (s : Fs) (c : Nat) (w : WriteCall) (d : Disk) (p' : Process) (w' : WriteCall) : Fs :=
  { s with
    disk := d
    processes := s.processes.set w.process p'
    writes := s.writes.set c
      { w' with changed := w.changed || s.disk.view w.name ≠ d.view w.name } }

theorem writeAction_ok {s' move} (h : writeAction s c move = some s') :
    ∃ w p d p' w', s.writes[c]? = some w ∧ s.processes[w.process]? = some p ∧ p.alive = true ∧
      WriteEffect s.disk p c w d p' w' ∧ s' = s.wrote c w d p' w' := by
  obtain ⟨w, hw, h⟩ := bind_eq_some_iff.mp h
  obtain ⟨p, hp, h⟩ := bind_eq_some_iff.mp h
  split at h
  · cases h
  rename_i halive
  obtain ⟨⟨d, p', w'⟩, hstep, h⟩ := bind_eq_some_iff.mp h
  cases h
  exact ⟨w, p, d, p', w', hw, hp, by simpa using halive, writeStep_effect hstep, rfl⟩

variable {d : Disk} {p' : Process} {w' : WriteCall}

section

variable (hp : s.processes[w.process]? = some p) (hproc : p'.pid = p.pid ∧ p'.alive = p.alive ∧
    p.counter ≤ p'.counter)

include hp hproc

theorem wrote_processes {q} (hq : s.processes[j]? = some q) :
    ∃ q', (s.wrote c w d p' w').processes[j]? = some q' ∧ q'.pid = q.pid ∧ q'.alive = q.alive ∧
      q.counter ≤ q'.counter := by
  show ∃ q', (s.processes.set w.process p')[j]? = some q' ∧ _
  rw [getElem?_set]
  split
  · next heq =>
    subst heq
    cases hp.symm.trans hq
    rw [if_pos (List.getElem?_eq_some_iff.mp hp).1]
    exact ⟨p', rfl, hproc⟩
  · exact ⟨q, hq, rfl, rfl, Nat.le_refl _⟩

theorem processes_wrote {q'} (hq : (s.wrote c w d p' w').processes[j]? = some q') : ∃ q,
    s.processes[j]? = some q ∧ q'.pid = q.pid ∧ q'.alive = q.alive := by
  change (s.processes.set w.process p')[j]? = some q' at hq
  rw [getElem?_set] at hq
  split at hq
  · next heq =>
    subst heq
    rw [if_pos (List.getElem?_eq_some_iff.mp hp).1] at hq
    cases hq
    exact ⟨p, hp, hproc.1, hproc.2.1⟩
  · exact ⟨q', hq, rfl, rfl⟩

end

theorem wrote_self (hw : s.writes[c]? = some w) : (s.wrote c w d p' w').writes[c]?
      = some { w' with changed := w.changed || s.disk.view w.name ≠ d.view w.name } := by
  show (s.writes.set c _)[c]? = _
  rw [List.getElem?_set_self (List.getElem?_eq_some_iff.mp hw).1]

theorem wrote_other (hne : c' ≠ c) : (s.wrote c w d p' w').writes[c']? = s.writes[c']? := by
  show (s.writes.set c _)[c']? = _
  exact getElem?_set_ne hne.symm

theorem keeps_wrote (hw : s.writes[c]? = some w) (hp : s.processes[w.process]? = some p)
    (heff : WriteEffect s.disk p c w d p' w') (hfoot : Footprint s c w p d) :
    Keeps s (s.wrote c w d p' w') where
  processes j q hq := by
    obtain ⟨q', hq', hpid, -, hcount⟩ := wrote_processes hp heff.process hq
    exact ⟨q', hq', hpid, hcount⟩
  writes c' v hv := by
    by_cases hne : c' = c
    · subst hne
      cases hw.symm.trans hv
      obtain ⟨hproc, hname, hbytes, -⟩ := heff.same
      exact ⟨_, wrote_self hw, hproc, hname, hbytes⟩
    · exact ⟨v, (wrote_other hne).trans hv, rfl, rfl, rfl⟩
  nodes i node hnode := by
    obtain ⟨node', hnode', howner, hsame⟩ := hfoot.nodes i node hnode
    exact ⟨node', hnode', howner, fun hpub => hsame (.inr hpub)⟩

section

variable (h : FsInv s) (hw : s.writes[c]? = some w) (hfoot : Footprint s c w p d) (hname :
    d.dir.get? w.name = s.disk.dir.get? w.name)

include h hw hfoot hname

/-- What a reader of the name finds is there before and after, unless the name changed. -/
theorem view_eq : d.view w.name = s.disk.view w.name := by
  unfold Disk.view
  rw [hname]
  cases hget : s.disk.dir.get? w.name with
  | none => rfl
  | some i =>
    obtain ⟨node, v, hnode, hpub, -⟩ := h.published_of_entry hget fun q hq =>
      (h.apart q hq).1 w (mem_of_getElem? hw)
    obtain ⟨node', hnode', -, hsame⟩ := hfoot.nodes i node hnode
    rw [bind_some, bind_some, hnode', hnode, hsame (.inr hpub)]

theorem unchanged_wrote (hbefore : w.changed = false) :
    (w.changed || s.disk.view w.name ≠ d.view w.name) = false := by
  rw [hbefore, view_eq h hw hfoot hname]
  simp

end

theorem owns_wrote (hp : s.processes[w.process]? = some p)
    (heff : WriteEffect s.disk p c w d p' w') (hfoot : Footprint s c w p d) (hne : c' ≠ c)
    (howns : Owns s c' v k i node) :
    Owns (s.wrote c w d p' w') c' v k i node := by
  obtain ⟨q, hq, hk, hdir, hnode, howner, hpub⟩ := howns
  obtain ⟨q', hq', hpid, -, hcount⟩ := wrote_processes hp heff.process hq
  have hother : node.owner ≠ c := fun hc => hne (howner.symm.trans hc)
  obtain ⟨node', hnode', -, hsame⟩ := hfoot.nodes i node hnode
  rw [hsame (.inl hother)] at hnode'
  refine ⟨q', hq', Nat.lt_of_lt_of_le hk hcount, ?_, hnode', howner, hpub⟩
  rw [hpid]
  exact hfoot.pending _ i node hdir hnode hother hpub

section

variable (h : FsInv s) (hw : s.writes[c]? = some w) (hp : s.processes[w.process]? = some p)
  (halive : p.alive = true) (heff : WriteEffect s.disk p c w d p' w') (hfoot : Footprint s c w p d)

include h hw hp halive heff hfoot

theorem gone_wrote (hv : v ∈ s.writes) (hrunning : v.phase.running = true) (hgone : Gone s v k) :
    Gone (s.wrote c w d p' w') v k := by
  obtain ⟨q, hq, hk, hfree⟩ := hgone
  obtain ⟨q', hq', hpid, -, hcount⟩ := wrote_processes hp heff.process hq
  refine ⟨q', hq', Nat.lt_of_lt_of_le hk hcount, ?_⟩
  rw [hpid]
  rcases hfoot.free _ hfree with hfree | hname | htemp
  · exact hfree
  · exact absurd hname.symm
      (h.ne_tempName (mem_of_getElem? hw) (mem_of_getElem? hq) k)
  · -- the name was drawn again: by the same live process, and its counter is past it
    obtain ⟨hsame, hkc⟩ := tempName_inj htemp
    obtain ⟨q₀, hq₀, hqalive⟩ := h.owned v hv
    cases hq.symm.trans hq₀
    have hproc := h.pids _ _ q p hq hp (hqalive hrunning) halive hsame
    rw [hproc] at hq
    cases hp.symm.trans hq
    omega

theorem writeOk_other (hne : c' ≠ c) (hv : s.writes[c']? = some v) :
    WriteOk (s.wrote c w d p' w') c' v := by
  refine (h.writes c' v hv).transfer ?_ ?_
  · exact fun howns => owns_wrote hp heff hfoot hne howns
  · exact fun hr hg => gone_wrote h hw hp halive heff hfoot (mem_of_getElem? hv) hr hg

end

theorem wrote_process (hp : s.processes[w.process]? = some p) :
    (s.wrote c w d p' w').processes[w.process]? = some p' := by
  show (s.processes.set w.process p')[w.process]? = some p'
  rw [List.getElem?_set_self (List.getElem?_eq_some_iff.mp hp).1]

section

variable (h : FsInv s) (hw : s.writes[c]? = some w) (hp : s.processes[w.process]? = some p)

include h hw hp

theorem writeOk_self (hleft : p.counter < 2 ^ 64) (heff : WriteEffect s.disk p c w d p' w')
    (hfoot : Footprint s c w p d) :
    WriteOk (s.wrote c w d p' w') c
      { w' with changed := w.changed || s.disk.view w.name ≠ d.view w.name } := by
  have hok := h.writes c w hw
  have hname : ∀ k, w.name ≠ tempName p.pid k := fun k =>
    h.ne_tempName (mem_of_getElem? hw) (mem_of_getElem? hp) k
  have hsame := unchanged_wrote h hw hfoot
  have hproc : (s.wrote c w d p' w').processes[w.process]? = some p' := wrote_process hp
  cases heff with
  | searching before _ after =>
    have hbefore : w.changed = false := by
      unfold WriteOk at hok
      rcases before with hb | ⟨n, hb⟩
      · rw [hb] at hok
        exact hok
      · rw [hb] at hok
        exact hok
    rcases after with ⟨n, rfl⟩ | ⟨e, -, rfl⟩
    · exact hsame rfl hbefore
    · exact fun _ => hsame rfl hbefore
  | created before free =>
    unfold WriteOk at hok
    rw [before] at hok
    rw [Nat.mod_eq_of_lt hleft] at free hproc hsame ⊢
    have hdir : ∀ x, (s.disk.create (tempName p.pid p.counter) c).dir.get? x
        = if x = tempName p.pid p.counter then some s.disk.nodes.length
          else s.disk.dir.get? x := by
      intro x
      show (s.disk.dir.upsert (tempName p.pid p.counter) _ _).get? x = _
      rw [get?_upsert, free]
      rfl
    refine ⟨hsame ?_ hok, ⟨[], c, false, false⟩, ⟨_, hproc, Nat.lt_succ_self _, ?_, ?_, rfl, rfl⟩,
      take_zero.symm⟩
    · rw [hdir, if_neg (hname _)]
    · exact (hdir _).trans (if_pos rfl)
    · exact getElem?_concat_length
  | @wrote k i written n before =>
    unfold WriteOk at hok
    rw [before] at hok
    obtain ⟨hchanged, node, ⟨q, hq, hk, hdir, hnode, howner, hpub⟩, -⟩ := hok
    cases hp.symm.trans hq
    exact ⟨hsame rfl hchanged, _, ⟨p, hproc, hk, hdir, getElem?_modify_self hnode _, howner, hpub⟩,
      rfl⟩
  | @synced k i written before all =>
    unfold WriteOk at hok
    rw [before] at hok
    obtain ⟨hchanged, node, ⟨q, hq, hk, hdir, hnode, howner, hpub⟩, hcontent⟩ := hok
    cases hp.symm.trans hq
    rw [take_of_length_le all] at hcontent
    exact ⟨hsame rfl hchanged, _, ⟨p, hproc, hk, hdir, getElem?_modify_self hnode _, howner, hpub⟩,
      hcontent, rfl⟩
  | @abandoned k i e before certain =>
    obtain ⟨node, q, hq, howns⟩ := hok.owns (before.imp_right .inl)
    cases hp.symm.trans hq
    have hchanged : w.changed = false := by
      unfold WriteOk at hok
      rcases before with ⟨n, hb⟩ | hb
      · rw [hb] at hok
        exact hok.1
      · rw [hb] at hok
        exact hok.1
    exact ⟨hsame rfl hchanged, certain, node, p, hproc, howns⟩
  | @published k i j before there absent =>
    obtain ⟨node, q, hq, hk, -⟩ := hok.owns (.inr (.inl before))
    cases hp.symm.trans hq
    refine ⟨⟨p, hproc, hk, ?_⟩, fun hnew => congrArg some (absent hnew)⟩
    show ((s.disk.dir.erase (tempName p.pid k)).upsert w.name j _).get? (tempName p.pid k) = none
    rw [get?_upsert, if_neg (hname k).symm, get?_erase, if_pos rfl]
  | @durable k before =>
    unfold WriteOk at hok
    rw [before] at hok
    exact hok.2
  | @uncertain k before =>
    unfold WriteOk at hok
    rw [before] at hok
    obtain ⟨⟨q, hq, hk, hgone⟩, -⟩ := hok
    cases hp.symm.trans hq
    exact ⟨⟨p, hproc, hk, hgone⟩, rfl⟩
  | @kept k file e before =>
    unfold WriteOk at hok
    rw [before] at hok
    intro he
    cases file with
    | none => exact absurd hok.2 he
    | some i => exact hsame rfl hok.1
  | @cleaned k file e before =>
    unfold WriteOk at hok
    rw [before] at hok
    intro he
    cases file with
    | none => exact absurd hok.2 he
    | some i =>
      refine hsame ?_ hok.1
      show (s.disk.dir.erase (tempName p.pid k)).get? w.name = _
      rw [get?_erase, if_neg (hname k)]

theorem FsInv.wrote (halive : p.alive = true) (hleft : p.counter < 2 ^ 64)
    (heff : WriteEffect s.disk p c w d p' w') : FsInv (s.wrote c w d p' w') := by
  have hfoot := heff.footprint h hw hp hleft
  have hkeeps := keeps_wrote hw hp heff hfoot
  have hproc := heff.process
  obtain ⟨hsameproc, hsamename, hsamebytes, -⟩ := heff.same
  constructor
  · intro i j q₁ q₂ h₁ h₂ ha₁ ha₂ hpid
    obtain ⟨r₁, hr₁, hpid₁, hal₁⟩ := processes_wrote hp hproc h₁
    obtain ⟨r₂, hr₂, hpid₂, hal₂⟩ := processes_wrote hp hproc h₂
    exact h.pids i j r₁ r₂ hr₁ hr₂ (hal₁ ▸ ha₁) (hal₂ ▸ ha₂) (hpid₁ ▸ hpid₂ ▸ hpid)
  · intro q hq
    obtain ⟨j, hj⟩ := mem_iff_getElem?.mp hq
    obtain ⟨r, hr, hpid, -⟩ := processes_wrote hp hproc hj
    obtain ⟨hwrites, hreads⟩ := h.apart r (mem_of_getElem? hr)
    rw [hpid]
    refine ⟨fun v hv => ?_, hreads⟩
    rcases mem_or_eq_of_mem_set hv with hv | rfl
    · exact hwrites v hv
    · show isTempOf r.pid w'.name = false
      rw [hsamename]
      exact hwrites w (mem_of_getElem? hw)
  · intro v hv
    rcases mem_or_eq_of_mem_set hv with hv | rfl
    · obtain ⟨q, hq, hal⟩ := h.owned v hv
      obtain ⟨q', hq', -, halive', -⟩ := wrote_processes hp hproc hq
      exact ⟨q', hq', fun hr => halive'.trans (hal hr)⟩
    · refine ⟨p', ?_, fun _ => hproc.2.1.trans halive⟩
      show (s.wrote c w d p' w').processes[w'.process]? = some p'
      rw [hsameproc]
      exact wrote_process hp
  · intro i node hnode
    rcases hfoot.own i node hnode with hold | ⟨hown, hfull⟩
    · obtain ⟨v, hv, hpub⟩ := h.nodes i node hold
      obtain ⟨v', hv', -, -, hbytes⟩ := hkeeps.writes _ v hv
      exact ⟨v', hv', fun hp => hbytes ▸ hpub hp⟩
    · rw [hown]
      refine ⟨_, wrote_self hw, fun hp => ?_⟩
      show node.content = w'.bytes ∧ _
      rw [hsamebytes]
      exact hfull hp
  · intro dir hdir x i hx
    rcases hfoot.entries dir hdir x i hx with ⟨old, hold, hx⟩ | ⟨node, hnode, rfl, hor⟩
    · exact hkeeps.entryOk (h.entries old hold x i hx)
    · refine ⟨node, _, p', hnode, wrote_self hw, ?_, ?_⟩
      · show (s.wrote _ w d p' w').processes[w'.process]? = some p'
        rw [hsameproc]
        exact wrote_process hp
      · rw [hproc.1]
        exact hor.imp_left fun hx => ⟨hx.1.trans hsamename.symm, hx.2⟩
  · intro c' v hv
    by_cases hne : c' = c
    · subst hne
      rw [wrote_self hw] at hv
      cases hv
      exact writeOk_self h hw hp hleft heff hfoot
    · rw [wrote_other hne] at hv
      exact writeOk_other h hw hp halive heff hfoot hne hv
  · exact fun r hr => hkeeps.readOk (h.reads r hr)

end

end Write

/-! ## The other steps -/

section Steps

theorem FsInv.setReads (h : FsInv s) {reads}
    (hnames : ∀ r ∈ reads, ∀ p ∈ s.processes, isTempOf p.pid r.name = false)
    (hreads : ∀ r ∈ reads, ReadOk s r) : FsInv { s with reads := reads } :=
  { h with
    apart p hp := ⟨(h.apart p hp).1, fun r hr => hnames r hr p hp⟩
    reads := hreads }

variable {dead : Nat → Bool} {r : ReadCall} {move : Move} {j : Nat} {q : Process} {d : Disk}

theorem ReadOk.finish {i : Nat} {got : Bytes} {node w n} (h : FsInv s)
    (hnode : s.disk.nodes[i]? = some node) (hpub : node.published = true)
    (hw : s.writes[node.owner]? = some w) (hname : w.name = r.name)
    (hgot : got = w.bytes.take got.length) (hn : n ≠ 0)
    (hend : (node.content.drop got.length).take (min n (r.limit + 1 - got.length)) = []) :
    ReadOk s { r with phase := finishRead r.limit got } := by
  unfold finishRead
  split
  · trivial
  rename_i hfits
  refine ⟨w, mem_of_getElem? hw, hname, ?_⟩
  obtain ⟨w₀, hw₀, hfull⟩ := h.nodes i node hnode
  cases hw.symm.trans hw₀
  rw [(hfull hpub).1, take_eq_nil_iff] at hend
  rcases hend with hzero | hdrop
  · omega
  · rw [hgot, take_of_length_le (drop_eq_nil_iff.mp hdrop)]

theorem readStep_ok (h : FsInv s) (hr : r ∈ s.reads) {phase}
    (hstep : readStep s.disk r move = some phase) : ReadOk s { r with phase := phase } := by
  have hok := h.reads r hr
  have hname : ∀ p ∈ s.processes, isTempOf p.pid r.name = false := fun p hp => (h.apart p hp).2 r hr
  unfold readStep at hstep
  split at hstep
  · split at hstep
    · cases hstep
      trivial
    split at hstep
    · cases hstep
      trivial
    split at hstep
    · cases hstep
      trivial
    · cases hstep
    · cases hget : s.disk.dir.get? r.name with
      | none =>
        rw [hget] at hstep
        cases hstep
        trivial
      | some i =>
        rw [hget] at hstep
        cases hstep
        exact h.published_of_entry hget hname
  · cases hstep
    trivial
  · cases hstep
    trivial
  · next hphase =>
    unfold ReadOk at hok
    rw [hphase] at hok
    obtain ⟨node, w, hnode, hpub, hw, hwname⟩ := hok
    rw [hnode] at hstep
    cases hstep
    dsimp only
    split
    · trivial
    exact ⟨node, w, hnode, hpub, hw, hwname, rfl⟩
  · next i got n hphase =>
    unfold ReadOk at hok
    rw [hphase] at hok
    obtain ⟨node, w, hnode, hpub, hw, hwname, hgot⟩ := hok
    rw [hnode, bind_some] at hstep
    dsimp only at hstep
    split at hstep
    · cases hstep
    rename_i hn
    split at hstep
    · next hend =>
      cases hstep
      exact ReadOk.finish h hnode hpub hw hwname hgot hn hend
    · cases hstep
      refine ⟨node, w, hnode, hpub, hw, hwname, ?_⟩
      obtain ⟨w₀, hw₀, hfull⟩ := h.nodes i node hnode
      cases hw.symm.trans hw₀
      rw [(hfull hpub).1, length_append, take_add, ← hgot, append_cancel_left_eq, take_eq_take_iff]
      simp
  · cases hstep

theorem stop_process (hq : s.processes[j]? = some q) :
    (s.stop dead).processes[j]? = some (if dead j then { q with alive := false } else q) := by
  show (s.processes.mapIdx _)[j]? = _
  rw [getElem?_mapIdx, hq]
  rfl

theorem process_stop (hq : (s.stop dead).processes[j]? = some q) :
    ∃ p, s.processes[j]? = some p ∧ q.pid = p.pid ∧
      (q.alive = true → p.alive = true ∧ dead j = false) := by
  change (s.processes.mapIdx _)[j]? = some q at hq
  rw [getElem?_mapIdx] at hq
  obtain ⟨p, hp, rfl⟩ := map_eq_some_iff.mp hq
  refine ⟨p, hp, ?_, ?_⟩
  · split <;> rfl
  · split
    · exact fun hal => absurd hal Bool.false_ne_true
    · next hd => exact fun hal => ⟨hal, Bool.eq_false_iff.mpr hd⟩

theorem WriteCall.stop_same (w : WriteCall) :
    w.stop.process = w.process ∧ w.stop.name = w.name ∧ w.stop.bytes = w.bytes ∧
      w.stop.phase.running = false := by
  unfold WriteCall.stop
  split
  · exact ⟨rfl, rfl, rfl, rfl⟩
  · next h => exact ⟨rfl, rfl, rfl, Bool.eq_false_iff.mpr h⟩

theorem ReadCall.stop_same (r : ReadCall) : r.stop.name = r.name := by
  unfold ReadCall.stop
  split <;> rfl

theorem WriteOk.stop {c w} (h : WriteOk s c w) : WriteOk s' c w.stop := by
  unfold WriteCall.stop
  split
  · trivial
  rename_i hrunning
  unfold WriteOk at h ⊢
  cases hphase : w.phase with
  | done result =>
    rw [hphase] at h
    cases result <;> exact h
  | dead => trivial
  | _ =>
    rw [hphase] at hrunning
    exact absurd rfl hrunning

theorem ReadOk.stop (h : ReadOk s r) : ReadOk s r.stop := by
  unfold ReadCall.stop
  split
  · exact h
  trivial

/-- The disk after a stop: as it was, or what is left when all processes have stopped. -/
structure Survives (s : Fs) (dead : Nat → Bool) (d : Disk) : Prop where
  same : (∀ j, dead j = true) ∨ d = s.disk
  nodes : ∀ (i : Nat) (node : Node), s.disk.nodes[i]? = some node →
    ∃ node', d.nodes[i]? = some node' ∧ node'.owner = node.owner ∧
      (node.published = true → node' = node)
  back : ∀ (i : Nat) (node : Node), d.nodes[i]? = some node →
    ∃ old, s.disk.nodes[i]? = some old ∧ node.owner = old.owner ∧
      (node.published = true → node = old)
  entries : ∀ dir ∈ d.dir :: d.past, ∀ (x : Text) (i : Nat), dir.get? x = some i →
    ∃ old ∈ s.disk.dir :: s.disk.past, old.get? x = some i

theorem keeps_stop (hd : Survives s dead d) : Keeps s { s.stop dead with disk := d } where
  processes j q hq := by
    refine ⟨_, stop_process hq, ?_⟩
    split <;> exact ⟨rfl, Nat.le_refl _⟩
  writes c v hv := by
    refine ⟨if dead v.process then v.stop else v, ?_, ?_⟩
    · show (s.writes.map _)[c]? = _
      rw [getElem?_map, hv]
      rfl
    · obtain ⟨hproc, hname, hbytes, -⟩ := v.stop_same
      split
      · exact ⟨hproc, hname, hbytes⟩
      · exact ⟨rfl, rfl, rfl⟩
  nodes := hd.nodes

theorem FsInv.stop (h : FsInv s) (hd : Survives s dead d) :
    FsInv { s.stop dead with disk := d } := by
  have hkeeps := keeps_stop hd
  constructor
  · intro i j p q hp hq hpa hqa hpid
    obtain ⟨p₀, hp₀, hpid₀, hal₀⟩ := process_stop hp
    obtain ⟨q₀, hq₀, hpid₁, hal₁⟩ := process_stop hq
    exact h.pids i j p₀ q₀ hp₀ hq₀ (hal₀ hpa).1 (hal₁ hqa).1 (hpid₀ ▸ hpid₁ ▸ hpid)
  · intro p hp
    obtain ⟨j, hj⟩ := mem_iff_getElem?.mp hp
    obtain ⟨p₀, hp₀, hpid, -⟩ := process_stop hj
    obtain ⟨hwrites, hreads⟩ := h.apart p₀ (mem_of_getElem? hp₀)
    rw [hpid]
    constructor
    · intro w hw
      obtain ⟨v, hv, rfl⟩ := mem_map.mp hw
      split
      · rw [v.stop_same.2.1]
        exact hwrites v hv
      · exact hwrites v hv
    · intro r hr
      obtain ⟨v, hv, rfl⟩ := mem_map.mp hr
      split
      · rw [v.stop_same]
        exact hreads v hv
      · exact hreads v hv
  · intro w hw
    obtain ⟨v, hv, rfl⟩ := mem_map.mp hw
    obtain ⟨p, hp, halive⟩ := h.owned v hv
    split
    · next hdead =>
      obtain ⟨hproc, -, -, hstopped⟩ := v.stop_same
      refine ⟨_, (congrArg _ hproc).trans (stop_process hp), fun hr => ?_⟩
      exact absurd (hstopped.symm.trans hr) Bool.false_ne_true
    · next hlive =>
      refine ⟨_, stop_process hp, fun hr => ?_⟩
      rw [if_neg hlive]
      exact halive hr
  · intro i node hnode
    obtain ⟨old, hold, howner, hsame⟩ := hd.back i node hnode
    obtain ⟨w, hw, hpub⟩ := h.nodes i old hold
    obtain ⟨w', hw', -, -, hbytes⟩ := hkeeps.writes _ w hw
    refine ⟨w', howner ▸ hw', fun hp => ?_⟩
    rw [hsame hp, hbytes]
    exact hpub (hsame hp ▸ hp)
  · intro dir hdir x i hx
    obtain ⟨old, hold, hx⟩ := hd.entries dir hdir x i hx
    exact hkeeps.entryOk (h.entries old hold x i hx)
  · intro c w hw
    change (s.writes.map _)[c]? = some w at hw
    rw [getElem?_map] at hw
    obtain ⟨v, hv, rfl⟩ := map_eq_some_iff.mp hw
    have hok := h.writes c v hv
    split
    · exact hok.stop
    rename_i hlive
    rcases hd.same with hall | hsame
    · exact absurd (hall _) hlive
    exact hkeeps.writeOk hsame hok
  · intro r hr
    obtain ⟨v, hv, rfl⟩ := mem_map.mp hr
    have hok := hkeeps.readOk (h.reads v hv)
    split
    · exact hok.stop
    exact hok

theorem Survives.crash (dead) : Survives s dead s.disk where
  same := .inr rfl
  nodes _ node hnode := ⟨node, hnode, rfl, fun _ => rfl⟩
  back _ node hnode := ⟨node, hnode, rfl, fun _ => rfl⟩
  entries dir hdir _ _ hx := ⟨dir, hdir, hx⟩

theorem Survives.powerLoss (h : FsInv s) {dir} (hdir : s.disk.Recovers dir) (contents) :
    Survives s (fun _ => true) (s.disk.lose dir contents) := by
  have hget : ∀ i : Nat, (s.disk.lose dir contents).nodes[i]? = s.disk.nodes[i]?.map fun node =>
      if node.synced then node else { node with content := contents.getD i [] } :=
    fun i => getElem?_mapIdx
  have hkept : ∀ (i : Nat) (node : Node), s.disk.nodes[i]? = some node →
      node.published = true → node.synced = true := by
    intro i node hnode hpub
    obtain ⟨w, -, hfull⟩ := h.nodes i node hnode
    exact (hfull hpub).2
  constructor
  · exact .inl fun _ => rfl
  · intro i node hnode
    refine ⟨_, (hget i).trans (congrArg _ hnode), ?_, fun hpub => ?_⟩
    · dsimp only
      split <;> rfl
    · exact if_pos (hkept i node hnode hpub)
  · intro i node hnode
    rw [hget] at hnode
    obtain ⟨old, hold, rfl⟩ := map_eq_some_iff.mp hnode
    refine ⟨old, hold, ?_, fun hpub => ?_⟩
    · split <;> rfl
    · refine if_pos (hkept i old hold ?_)
      split at hpub <;> exact hpub
  · intro dir' hdir' x i hx
    obtain rfl := mem_singleton.mp hdir'
    exact hdir (x, i) (mem_rows.mpr hx)

theorem FsInv.spawn (h : FsInv s) {pid : Nat}
    (hnew : ∀ p ∈ s.processes, p.alive = true → p.pid ≠ pid) (hapart : s.NamesApart pid) :
    FsInv { s with processes := s.processes ++ [⟨pid, true, 0⟩] } := by
  have hkeeps : Keeps s { s with processes := s.processes ++ [⟨pid, true, 0⟩] } :=
    ⟨fun j q hq => ⟨q, getElem?_snoc.mpr (.inl hq), rfl, Nat.le_refl _⟩,
      fun _ v hv => ⟨v, hv, rfl, rfl, rfl⟩,
      fun _ node hnode => ⟨node, hnode, rfl, fun _ => rfl⟩⟩
  constructor
  · intro i j p q hp hq hpa hqa hpid
    rcases getElem?_snoc.mp hp with hp | ⟨rfl, rfl⟩
    · rcases getElem?_snoc.mp hq with hq | ⟨rfl, rfl⟩
      · exact h.pids i j p q hp hq hpa hqa hpid
      · exact absurd hpid (hnew p (mem_of_getElem? hp) hpa)
    · rcases getElem?_snoc.mp hq with hq | ⟨rfl, rfl⟩
      · exact absurd hpid.symm (hnew q (mem_of_getElem? hq) hqa)
      rfl
  · intro p hp
    rcases mem_snoc hp with hp | rfl
    · exact h.apart p hp
    · exact hapart
  · intro w hw
    obtain ⟨p, hp, halive⟩ := h.owned w hw
    exact ⟨p, getElem?_snoc.mpr (.inl hp), halive⟩
  · exact h.nodes
  · exact fun dir hdir x i hx => hkeeps.entryOk (h.entries dir hdir x i hx)
  · exact fun c w hw => hkeeps.writeOk rfl (h.writes c w hw)
  · exact fun r hr => hkeeps.readOk (h.reads r hr)

theorem FsInv.beginWrite (h : FsInv s) {i : Nat} {p : Process} (hp : s.processes[i]? = some p)
    (halive : p.alive = true) {name : Text} {bytes : Bytes} {publish : Publish}
    (hname : ∀ p ∈ s.processes, isTempOf p.pid name = false) :
    FsInv { s with writes := s.writes ++ [⟨i, name, bytes, publish, .checking, none, false⟩] } := by
  have hkeeps : Keeps s
      { s with writes := s.writes ++ [⟨i, name, bytes, publish, .checking, none, false⟩] } :=
    ⟨fun j q hq => ⟨q, hq, rfl, Nat.le_refl _⟩,
      fun _ v hv => ⟨v, getElem?_snoc.mpr (.inl hv), rfl, rfl, rfl⟩,
      fun _ node hnode => ⟨node, hnode, rfl, fun _ => rfl⟩⟩
  constructor
  · exact h.pids
  · intro q hq
    refine ⟨fun w hw => ?_, (h.apart q hq).2⟩
    rcases mem_snoc hw with hw | rfl
    · exact (h.apart q hq).1 w hw
    · exact hname q hq
  · intro w hw
    rcases mem_snoc hw with hw | rfl
    · exact h.owned w hw
    · exact ⟨p, hp, fun _ => halive⟩
  · intro j node hnode
    obtain ⟨w, hw, hfull⟩ := h.nodes j node hnode
    exact ⟨w, getElem?_snoc.mpr (.inl hw), hfull⟩
  · exact fun dir hdir x j hx => hkeeps.entryOk (h.entries dir hdir x j hx)
  · intro c w hw
    rcases getElem?_snoc.mp hw with hw | ⟨-, rfl⟩
    · exact hkeeps.writeOk rfl (h.writes c w hw)
    rfl
  · exact fun r hr => hkeeps.readOk (h.reads r hr)

theorem readAction_ok {c : Nat} (h : readAction s c move = some s') :
    ∃ r phase, s.reads[c]? = some r ∧ readStep s.disk r move = some phase ∧
      s' = { s with reads := s.reads.set c { r with phase := phase } } := by
  obtain ⟨r, hr, h⟩ := bind_eq_some_iff.mp h
  obtain ⟨p, -, h⟩ := bind_eq_some_iff.mp h
  split at h
  · cases h
  obtain ⟨phase, hstep, h⟩ := bind_eq_some_iff.mp h
  cases h
  exact ⟨r, phase, hr, hstep, rfl⟩

theorem FsInv.init : FsInv ⟨.empty, [], [], []⟩ where
  pids _ _ _ _ hp := absurd (mem_of_getElem? hp) not_mem_nil
  apart _ hp := absurd hp not_mem_nil
  owned _ hw := absurd hw not_mem_nil
  nodes _ _ hnode := absurd (mem_of_getElem? hnode) not_mem_nil
  entries dir hdir x i hx := by
    obtain rfl := mem_singleton.mp hdir
    exact absurd hx nofun
  writes _ _ hw := absurd (mem_of_getElem? hw) not_mem_nil
  reads _ hr := absurd hr not_mem_nil

theorem FsInv.step (h : FsInv s) {a : Action} (hok : Separate s a) (hstep : fsStep s a = some s') :
    FsInv s' := by
  cases a with
  | spawn pid =>
    cases hstep
    exact h.spawn hok.1 hok.2
  | crash i =>
    cases hstep
    exact h.stop (.crash _)
  | powerLoss dir contents =>
    change (if s.disk.Recovers dir then _ else none) = some s' at hstep
    split at hstep
    · next hdir =>
      cases hstep
      exact h.stop (.powerLoss h hdir contents)
    · cases hstep
  | beginWrite i name bytes publish =>
    obtain ⟨p, hp, hstep⟩ := bind_eq_some_iff.mp hstep
    split at hstep
    · next halive =>
      cases hstep
      exact h.beginWrite hp halive hok
    · cases hstep
  | write c move =>
    obtain ⟨w, p, d, p', w', hw, hp, halive, heff, rfl⟩ := writeAction_ok hstep
    exact h.wrote hw hp halive (hok w hw p hp) heff
  | beginRead i name limit =>
    obtain ⟨p, hp, hstep⟩ := bind_eq_some_iff.mp hstep
    split at hstep
    · cases hstep
      refine h.setReads (fun r hr => ?_) fun r hr => ?_
      · rcases mem_snoc hr with hr | rfl
        · exact fun q hq => (h.apart q hq).2 r hr
        · exact hok
      · rcases mem_snoc hr with hr | rfl
        · exact h.reads r hr
        · trivial
    · cases hstep
  | read c move =>
    obtain ⟨r, phase, hr, hread, rfl⟩ := readAction_ok hstep
    refine h.setReads (fun v hv => ?_) fun v hv => ?_
    · rcases mem_or_eq_of_mem_set hv with hv | rfl
      · exact fun q hq => (h.apart q hq).2 v hv
      · exact fun q hq => (h.apart q hq).2 r (mem_of_getElem? hr)
    · rcases mem_or_eq_of_mem_set hv with hv | rfl
      · exact h.reads v hv
      · exact readStep_ok h (mem_of_getElem? hr) hread

end Steps

/-! ## Publication -/

/-- **Publication is atomic.** In every run of separate processes, crashes and losses of power
included: a read that succeeds returns what one write of the name passed; a write that fails,
unless it is uncertain, has not changed what readers find; one that creates has found the name
free; and a system call of a write leaves every file that another has not yet renamed, under
its name and with its content. -/
theorem publication_is_atomic {s : Fs} (h : fsMachine.Reachable Separate s) :
    (∀ r ∈ s.reads, ∀ b, r.phase = .done (.ok b) → ∃ w ∈ s.writes, w.name = r.name ∧ w.bytes = b) ∧
    (∀ w ∈ s.writes, ∀ e, w.phase = .done (.error e) → e ≠ .commitUncertain → w.changed = false) ∧
    (∀ w ∈ s.writes, w.publish = .createNew → w.phase = .done (.ok ()) → w.replaced = some none) ∧
    ∀ c move s', Separate s (.write c move) → fsStep s (.write c move) = some s' →
      ∀ (x : Text) (i : Nat) (node : Node), s.disk.dir.get? x = some i →
        s.disk.nodes[i]? = some node → node.owner ≠ c → node.published = false →
        s'.disk.dir.get? x = some i ∧ s'.disk.nodes[i]? = some node := by
  have hinv : FsInv s :=
    h.invariant (fun hinit => hinit ▸ FsInv.init) fun hi hok hs => hi.step hok hs
  have hwrites : ∀ w ∈ s.writes, ∃ c, WriteOk s c w := by
    intro w hw
    obtain ⟨c, hc⟩ := mem_iff_getElem?.mp hw
    exact ⟨c, hinv.writes c w hc⟩
  refine ⟨?_, ?_, ?_, ?_⟩
  · intro r hr b hphase
    have hok := hinv.reads r hr
    unfold ReadOk at hok
    rw [hphase] at hok
    exact hok
  · intro w hw e hphase he
    obtain ⟨c, hok⟩ := hwrites w hw
    unfold WriteOk at hok
    rw [hphase] at hok
    exact hok he
  · intro w hw hnew hphase
    obtain ⟨c, hok⟩ := hwrites w hw
    unfold WriteOk at hok
    rw [hphase] at hok
    exact hok hnew
  · intro c move s' hok hstep x i node hx hnode hne hpub
    obtain ⟨w, p, d, p', w', hw, hp, -, heff, rfl⟩ := writeAction_ok hstep
    have hfoot := heff.footprint hinv hw hp (hok w hw p hp)
    obtain ⟨node', hnode', -, hsame⟩ := hfoot.nodes i node hnode
    exact ⟨hfoot.pending x i node hx hnode hne hpub, hsame (.inl hne) ▸ hnode'⟩

/-- Two processes write one name at the same time; the second replaces what the first has
created while a reader has it open, and loses its directory sync. A third write finds the name
taken. -/
def overlappingWrites : List Action :=
  [.spawn 5, .spawn 6, .beginWrite 0 ['k'] [1, 2] .createNew, .beginWrite 1 ['k'] [3] .upsert,
    .write 0 .ok, .write 0 .ok, .write 1 .ok, .write 1 .ok, .write 0 (.some 1), .write 0 (.some 1),
    .write 0 .ok, .write 0 .ok, .beginRead 0 ['k'] 10, .read 0 .ok, .write 1 (.some 1),
    .write 1 .ok, .write 1 .ok, .write 1 (.fail .io), .write 1 .ok, .read 0 .ok, .read 0 (.some 8),
    .read 0 (.some 8), .write 0 .ok, .crash 1, .beginWrite 0 ['k'] [9] .createNew, .write 2 .ok,
    .write 2 .ok, .write 2 (.some 1), .write 2 .ok, .write 2 .ok, .write 2 .ok]

theorem publication_is_atomic_overlapping : ∃ s, fsMachine.Reachable Separate s ∧
      (∃ r ∈ s.reads, r.phase = .done (.ok [1, 2])) ∧
      (∃ w ∈ s.writes, w.phase = .done (.error .alreadyExists)) ∧
      (∃ w ∈ s.writes, w.publish = .createNew ∧ w.phase = .done (.ok ())) ∧
      (∀ r ∈ s.reads, ∀ b, r.phase = .done (.ok b) →
        ∃ w ∈ s.writes, w.name = r.name ∧ w.bytes = b) ∧
      (∀ w ∈ s.writes, ∀ e, w.phase = .done (.error e) → e ≠ .commitUncertain → w.changed = false) ∧
      (∀ w ∈ s.writes, w.publish = .createNew → w.phase = .done (.ok ()) →
        w.replaced = some none) := by
  have hallowed : fsMachine.Allowed Separate ⟨.empty, [], [], []⟩ overlappingWrites := by
    decide +kernel
  have hreach : fsMachine.Reachable Separate _ := ⟨_, rfl, run_of_exec hallowed rfl⟩
  obtain ⟨hreads, herrors, hnew, -⟩ := publication_is_atomic hreach
  refine ⟨_, hreach, ?_, ?_, ?_, hreads, herrors, hnew⟩
  · decide +kernel
  · decide +kernel
  · decide +kernel

def pendingNameWrite : List Action :=
  [.spawn 5, .beginWrite 0 (tempName 5 0) [1, 2] .upsert, .write 0 .ok, .write 0 .ok,
    .write 0 (.some 1), .beginRead 0 (tempName 5 0) 10, .read 0 .ok, .read 0 .ok,
    .read 0 (.some 8), .read 0 (.some 8)]

/-- Two live processes with one id (two process namespaces, one directory): the first has
renamed its file and loses the directory sync, the second creates its own. -/
def sameIdWrites : List Action :=
  [.spawn 5, .spawn 5, .beginWrite 0 ['k'] [1] .upsert, .beginWrite 1 ['k'] [2] .upsert,
    .write 0 .ok, .write 0 .ok, .write 0 (.some 1), .write 0 .ok, .write 0 .ok,
    .write 0 (.fail .io), .write 1 .ok, .write 1 .ok]

/-- Temporary names are not set apart: a read of a name that is one returns a part of what the
write passed, and the cleanup of a write removes the pending file of another. -/
theorem pending_names_collide : (∃ s, fsMachine.Reachable (fun _ _ => True) s ∧
      ∃ r ∈ s.reads, r.phase = .done (.ok [1]) ∧ ∀ w ∈ s.writes, w.bytes ≠ [1]) ∧
    ∃ s s', fsMachine.Reachable (fun _ _ => True) s ∧ fsStep s (.write 0 .ok) = some s' ∧
      s.disk.dir.get? (tempName 5 0) = some 1 ∧ s.disk.nodes[1]? = some ⟨[], 1, false, false⟩ ∧
      s'.disk.dir.get? (tempName 5 0) = none := by
  constructor
  · refine ⟨_, ⟨_, rfl, run_of_exec (allowed_true _ pendingNameWrite) rfl⟩, ?_⟩
    decide +kernel
  · refine ⟨_, _, ⟨_, rfl, run_of_exec (allowed_true _ sameIdWrites) rfl⟩, rfl, ?_⟩
    decide +kernel

end SentinelPass.SecureIo
