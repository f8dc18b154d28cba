import NuKSM.Sysbench.MysqlHosts

/-! # Which server a connect picks

Between the critical sections the positions are those of a round robin: the ports go round once for each host. The position in
the list of sockets is one behind, at its head in the beginning. -/

namespace NuKSM.Sysbench
open Thread PositionOp

variable {κ : Type}

/-! ### Lists of values -/

/-- The list with the head has these values. -/
structure ValueItems.Holds (v : ValueItems κ) (head : κ) (items : List κ) (values : List (List Char)) : Prop where
  list : Circular v.links head items
  head_data : v.data head = none
  data : items.map v.data = values.map some

namespace ValueItems.Holds
variable {v : ValueItems κ} {head item other : κ} {items others : List κ} {values values' : List (List Char)}

section making
variable [DecidableEq κ]

theorem init (v : ValueItems κ) (head : κ) : (v.init head).Holds head [] [] :=
  ⟨.init _ _, Function.update_self .., rfl⟩

theorem init_other (hother : v.Holds other others values') (hnew : head ∉ other :: others) :
    (v.init head).Holds other others values' := by
  refine ⟨hother.list.init_other hnew, ?_, ?_⟩
  · exact (Function.update_of_ne (ne_of_mem_of_not_mem List.mem_cons_self hnew) ..).trans hother.head_data
  · rw [← hother.data]
    refine List.map_congr_left fun a ha => ?_
    exact Function.update_of_ne (ne_of_mem_of_not_mem (List.mem_cons_of_mem _ ha) hnew) ..

theorem addValue (hlist : v.Holds head items values) (hnew : item ∉ head :: items) (data : List Char) :
    (v.addValue head item data).Holds head (items ++ [item]) (values ++ [data]) := by
  refine ⟨hlist.list.addTail hnew, ?_, ?_⟩
  · exact (Function.update_of_ne (ne_of_mem_of_not_mem List.mem_cons_self hnew) ..).trans hlist.head_data
  · have hself : (v.addValue head item data).data item = some data := Function.update_self ..
    rw [List.map_append, List.map_append, List.map_singleton, List.map_singleton, ← hlist.data, hself]
    refine congrArg (· ++ [some data]) (List.map_congr_left fun a ha => ?_)
    exact Function.update_of_ne (ne_of_mem_of_not_mem (List.mem_cons_of_mem _ ha) hnew) ..

/-- A value is added to another list. -/
theorem addValue_other (hlist : v.Holds head items values) (hother : v.Holds other others values')
    (hnew : item ∉ other :: others) (hdisjoint : ∀ a ∈ other :: others, a ∉ head :: items) (data : List Char) :
    (v.addValue head item data).Holds other others values' := by
  refine ⟨hlist.list.addTail_other hother.list hnew hdisjoint, ?_, ?_⟩
  · exact (Function.update_of_ne (ne_of_mem_of_not_mem List.mem_cons_self hnew) ..).trans hother.head_data
  · rw [← hother.data]
    refine List.map_congr_left fun a ha => ?_
    exact Function.update_of_ne (ne_of_mem_of_not_mem (List.mem_cons_of_mem _ ha) hnew) ..

/-- Values are added to a list, while the others keep theirs. -/
theorem addValues (hlist : v.Holds head items values) {l : List (κ × List Char)} (hnew : (head :: items ++ l.map Prod.fst).Nodup) :
    (v.addValues head l).Holds head (items ++ l.map Prod.fst) (values ++ l.map Prod.snd) ∧
    ∀ other others values', v.Holds other others values' → (∀ a ∈ other :: others, a ∉ head :: items ++ l.map Prod.fst) →
      (v.addValues head l).Holds other others values' := by
  induction l generalizing v items values with
  | nil =>
    rw [List.map_nil, List.map_nil, List.append_nil, List.append_nil]
    exact ⟨hlist, fun _ _ _ hother _ => hother⟩
  | cons x l ih =>
    have hitems : items ++ (x :: l).map Prod.fst = items ++ [x.1] ++ l.map Prod.fst := List.append_cons ..
    have hvalues : values ++ (x :: l).map Prod.snd = values ++ [x.2] ++ l.map Prod.snd := List.append_cons ..
    rw [List.cons_append, hitems, ← List.cons_append] at hnew
    have hfresh : x.1 ∉ head :: items := by
      rw [← List.cons_append, List.nodup_append, List.nodup_append] at hnew
      exact fun hmem => hnew.1.2.2 _ hmem _ (List.mem_singleton.mpr rfl) rfl
    obtain ⟨hself, hothers⟩ := ih (hlist.addValue hfresh x.2) hnew
    rw [hitems, hvalues]
    refine ⟨hself, fun other others values' hother hdisjoint => hothers other others values' ?_ fun a ha => ?_⟩
    · refine hlist.addValue_other hother (fun hmem => hdisjoint _ hmem ?_) (fun a ha hmem => hdisjoint a ha ?_) x.2
      · simp
      · exact List.mem_append_left _ hmem
    · have hmem := hdisjoint a ha
      rwa [List.cons_append, hitems, ← List.cons_append] at hmem

end making

theorem length_eq (hlist : v.Holds head items values) : items.length = values.length := by
  have hlength := congrArg List.length hlist.data
  rwa [List.length_map, List.length_map] at hlength

theorem ne_nil (hlist : v.Holds head items values) (hne : values ≠ []) : items ≠ [] := by
  rw [← List.length_pos_iff, hlist.length_eq]
  exact List.length_pos_iff.mpr hne

/-- The value that is come to after `k` items. -/
theorem data_around (hlist : v.Holds head items values) (hne : values ≠ []) (k : ℕ) :
    ∃ value, v.data (Circular.around items (hlist.ne_nil hne) k) = some value ∧ values[k % values.length]? = some value := by
  have hlt : k % items.length < items.length := Nat.mod_lt _ (List.length_pos_iff.mpr (hlist.ne_nil hne))
  have hlt' : k % items.length < values.length := hlist.length_eq ▸ hlt
  have hitem : (items.map v.data)[k % items.length]? = (values.map some)[k % items.length]? := by rw [hlist.data]
  rw [List.getElem?_map, List.getElem?_map, List.getElem?_eq_getElem hlt, List.getElem?_eq_getElem hlt'] at hitem
  rw [← hlist.length_eq, List.getElem?_eq_getElem hlt']
  exact ⟨_, Option.some.inj hitem, rfl⟩

end ValueItems.Holds

/-- The lists of the options. -/
structure MysqlArgs.Holds (args : MysqlArgs κ) (hosts ports sockets : List κ) (H P S : List (List Char)) : Prop where
  hosts : args.values.Holds args.hosts hosts H
  ports : args.values.Holds args.ports ports P
  sockets : args.values.Holds args.sockets sockets S

/-- The lists that are made have the values that were given. -/
theorem MysqlArgs.make_holds [DecidableEq κ] (v : ValueItems κ) {hosts ports sockets : κ × List (κ × List Char)}
    (hnew : (hosts.1 :: hosts.2.map Prod.fst ++ (ports.1 :: ports.2.map Prod.fst ++ sockets.1 :: sockets.2.map Prod.fst)).Nodup) :
    (MysqlArgs.make v hosts ports sockets).Holds (hosts.2.map Prod.fst) (ports.2.map Prod.fst) (sockets.2.map Prod.fst)
      (hosts.2.map Prod.snd) (ports.2.map Prod.snd) (sockets.2.map Prod.snd) := by
  obtain ⟨hhosts, hrest, hapart⟩ := List.nodup_append.mp hnew
  obtain ⟨hports, hsockets, hapart'⟩ := List.nodup_append.mp hrest
  have hHP : List.Disjoint (hosts.1 :: hosts.2.map Prod.fst) (ports.1 :: ports.2.map Prod.fst) := fun a ha hb =>
    hapart a ha a (List.mem_append_left _ hb) rfl
  have hHS : List.Disjoint (hosts.1 :: hosts.2.map Prod.fst) (sockets.1 :: sockets.2.map Prod.fst) := fun a ha hb =>
    hapart a ha a (List.mem_append_right _ hb) rfl
  have hPS : List.Disjoint (ports.1 :: ports.2.map Prod.fst) (sockets.1 :: sockets.2.map Prod.fst) := fun a ha hb =>
    hapart' a ha a hb rfl
  -- A list that is empty so far does not meet another one, whatever is added to that.
  have hempty : ∀ {head : κ} {l l' : List κ}, List.Disjoint (head :: l) l' → ∀ a ∈ [head], a ∉ l' := fun h a ha =>
    h (List.cons_subset_cons _ (List.nil_subset _) ha)
  have hinit : (((v.init hosts.1).init ports.1).init sockets.1).Holds hosts.1 [] [] :=
    ((ValueItems.Holds.init v _).init_other fun h => hempty hHP _ h List.mem_cons_self).init_other fun h =>
      hempty hHS _ h List.mem_cons_self
  have hinit' : (((v.init hosts.1).init ports.1).init sockets.1).Holds ports.1 [] [] :=
    (ValueItems.Holds.init _ _).init_other fun h => hempty hPS _ h List.mem_cons_self
  have hinit'' : (((v.init hosts.1).init ports.1).init sockets.1).Holds sockets.1 [] [] := ValueItems.Holds.init _ _
  obtain ⟨hset, hothers⟩ := hinit.addValues hhosts
  obtain ⟨hset', hothers'⟩ := (hothers _ _ _ hinit' (hempty hHP.symm)).addValues hports
  obtain ⟨hset'', hothers''⟩ := (hothers' _ _ _ (hothers _ _ _ hinit'' (hempty hHS.symm)) (hempty hPS.symm)).addValues hsockets
  exact ⟨hothers'' _ _ _ (hothers' _ _ _ hset fun a => @hHP a) fun a => @hHS a, hothers'' _ _ _ hset' fun a => @hPS a, hset''⟩

/-! ### One section -/

variable [DecidableEq κ] {args : MysqlArgs κ} {p : MysqlPositions κ}

/-- The positions after a connect to a port. -/
def MysqlPositions.nextPort (args : MysqlArgs κ) (p : MysqlPositions κ) : MysqlPositions κ :=
  let port := args.values.links.next p.ports
  if port = args.ports then
    { p with hosts := args.values.links.cycle args.hosts p.hosts, ports := args.values.links.next port }
  else { p with ports := port }

section sections
variable {list : MysqlList} {head item : κ} {data : List Char}

omit [DecidableEq κ] in
theorem itemNext_solo : (itemNext args list).solo (step args) p = some ((), p.set (args.values.links.next (p.get list)) list) := rfl

omit [DecidableEq κ] in
theorem step_entry (hdata : args.values.data item = some data) : step args (entry item) p = some (data, p) := by
  rw [step, hdata]
  rfl

theorem valueNext_solo : (valueNext args list head).solo (step args) p =
    some ((), p.set (args.values.links.cycle head (p.get list)) list) := by
  have hget : ∀ item, (p.set item list).get list = item := fun item => by cases list <;> rfl
  have hset : ∀ item item', (p.set item list).set item' list = p.set item' list := fun item item' => by cases list <;> rfl
  have hload : ∀ p : MysqlPositions κ, step args (load list) p = some (p.get list, p) := fun _ => rfl
  rw [valueNext, solo_bind, itemNext_solo, Option.bind_some, solo_perform_bind (hload _), hget, onlyIf, Links.cycle]
  split
  · rw [itemNext_solo, hget, hset]
  · rfl

theorem connectToPort_solo {host port : List Char} (hhost : args.values.data p.hosts = some host)
    (hport : args.values.data p.ports = some port) :
    (connectToPort args).solo (step args) p = some ({ host, port := atoi port }, p.nextPort args) := by
  unfold connectToPort
  rw [solo_perform_bind (r := p.hosts) rfl, solo_perform_bind (step_entry hhost), solo_perform_bind (r := p.ports) rfl,
    solo_perform_bind (step_entry hport), solo_bind, itemNext_solo, Option.bind_some,
    solo_perform_bind (r := args.values.links.next p.ports) rfl, solo_bind, onlyIf, MysqlPositions.nextPort]
  split
  · rename_i hwrap
    dsimp only
    rw [solo_bind, valueNext_solo]
    rfl
  · rfl

theorem connectToSocket_solo {socket : List Char}
    (hsocket : args.values.data (args.values.links.cycle args.sockets p.sockets) = some socket) :
    (connectToSocket args).solo (step args) p =
      some ({ socket := some socket, host := "localhost".toList },
        { p with sockets := args.values.links.cycle args.sockets p.sockets }) := by
  unfold connectToSocket
  rw [solo_bind, valueNext_solo, Option.bind_some,
    solo_perform_bind (r := args.values.links.cycle args.sockets p.sockets) rfl, solo_perform_bind (step_entry hsocket)]
  rfl

end sections

/-! ### Section after section -/

/-- What connect `k` picks. -/
def roundRobin (hosts ports sockets : List (List Char)) (k : ℕ) : MysqlServer :=
  if sockets = [] then
    { host := hosts.getD (k / ports.length % hosts.length) [], port := atoi (ports.getD (k % ports.length) []) }
  else { socket := some (sockets.getD (k % sockets.length) []), host := "localhost".toList }

section rounds
variable {hosts ports sockets : List κ} {H P S : List (List Char)}

theorem mysqlDrvInit_eq (hargs : args.Holds hosts ports sockets H P S) (hH : H ≠ []) (hP : P ≠ []) :
    mysqlDrvInit args = .ok ⟨Circular.around hosts (hargs.hosts.ne_nil hH) 0, Circular.around ports (hargs.ports.ne_nil hP) 0,
      args.sockets⟩ := by
  rw [mysqlDrvInit, if_neg fun h => hargs.hosts.ne_nil hH (hargs.hosts.list.isEmpty_iff.mp h),
    if_neg fun h => hargs.ports.ne_nil hP (hargs.ports.list.isEmpty_iff.mp h), hargs.hosts.list.next_head (hargs.hosts.ne_nil hH),
    hargs.ports.list.next_head (hargs.ports.ne_nil hP)]

/-- A connect to a port goes on to the next connect's port and host. -/
theorem nextPort_around (hargs : args.Holds hosts ports sockets H P S) (hH : hosts ≠ []) (hP : ports ≠ []) (k : ℕ) (item : κ) :
    MysqlPositions.nextPort args ⟨Circular.around hosts hH (k / P.length), Circular.around ports hP k, item⟩ =
      ⟨Circular.around hosts hH ((k + 1) / P.length), Circular.around ports hP (k + 1), item⟩ := by
  have hdiv : (k + 1) / P.length = k / P.length + if (k + 1) % P.length = 0 then 1 else 0 := by
    simp only [Nat.succ_div, Nat.dvd_iff_mod_eq_zero]
  rw [MysqlPositions.nextPort, hargs.ports.list.next_around hP, hdiv, hargs.ports.length_eq]
  by_cases hwrap : (k + 1) % P.length = 0
  · have hfirst : Circular.around ports hP 0 = Circular.around ports hP (k + 1) :=
      Circular.around_congr hP (by rw [hargs.ports.length_eq, hwrap, Nat.zero_mod])
    dsimp only
    rw [if_pos hwrap, if_pos rfl, if_pos hwrap, hargs.hosts.list.cycle_around hH, hargs.ports.list.next_head hP, hfirst]
  · dsimp only
    rw [if_neg hwrap, if_neg hwrap, if_neg (hargs.ports.list.item_ne_head (Circular.around_mem hP _))]
    rfl

theorem section_ports (hargs : args.Holds hosts ports sockets H P S) (hH : H ≠ []) (hP : P ≠ []) (hS : S = []) (k : ℕ) :
    (mysqlDrvConnectServer args).solo (step args)
        ⟨Circular.around hosts (hargs.hosts.ne_nil hH) (k / P.length), Circular.around ports (hargs.ports.ne_nil hP) k, args.sockets⟩ =
      some (roundRobin H P S k, ⟨Circular.around hosts (hargs.hosts.ne_nil hH) ((k + 1) / P.length),
        Circular.around ports (hargs.ports.ne_nil hP) (k + 1), args.sockets⟩) := by
  obtain ⟨host, hhost, hhost'⟩ := hargs.hosts.data_around hH (k / P.length)
  obtain ⟨port, hport, hport'⟩ := hargs.ports.data_around hP k
  have hempty : args.values.links.isEmpty args.sockets = true := by
    rw [hargs.sockets.list.isEmpty_iff, ← List.length_eq_zero_iff, hargs.sockets.length_eq, hS]
    rfl
  rw [mysqlDrvConnectServer, if_pos hempty, connectToPort_solo hhost hport, nextPort_around hargs, roundRobin, if_pos hS,
    List.getD_eq_getElem?_getD, hhost', List.getD_eq_getElem?_getD, hport']
  rfl

/-- The position in the list of sockets after `k` connects. -/
def socketPosition (head : κ) (items : List κ) (hne : items ≠ []) : ℕ → κ
  | 0 => head
  | k + 1 => Circular.around items hne k

theorem section_sockets (hargs : args.Holds hosts ports sockets H P S) (hS : S ≠ []) (k : ℕ) (host port : κ) :
    (mysqlDrvConnectServer args).solo (step args) ⟨host, port, socketPosition args.sockets sockets (hargs.sockets.ne_nil hS) k⟩ =
      some (roundRobin H P S k, ⟨host, port, socketPosition args.sockets sockets (hargs.sockets.ne_nil hS) (k + 1)⟩) := by
  obtain ⟨socket, hsocket, hsocket'⟩ := hargs.sockets.data_around hS k
  have hnext : args.values.links.cycle args.sockets (socketPosition args.sockets sockets (hargs.sockets.ne_nil hS) k) =
      Circular.around sockets (hargs.sockets.ne_nil hS) k := by
    cases k with
    | zero => exact hargs.sockets.list.cycle_head _
    | succ k => exact hargs.sockets.list.cycle_around _ k
  rw [← hnext] at hsocket
  have hempty : ¬args.values.links.isEmpty args.sockets = true := fun h =>
    hargs.sockets.ne_nil hS (hargs.sockets.list.isEmpty_iff.mp h)
  rw [mysqlDrvConnectServer, if_neg hempty, connectToSocket_solo hsocket, roundRobin, if_neg hS, List.getD_eq_getElem?_getD, hsocket']
  dsimp only
  rw [hnext]
  rfl

end rounds

/-- Each pair of residues has one number in each round. -/
theorem existsUnique_round {m n : ℕ} (r : ℕ) {i j : ℕ} (hi : i < m) (hj : j < n) :
    ∃! k, r * (m * n) ≤ k ∧ k < (r + 1) * (m * n) ∧ k / n % m = i ∧ k % n = j := by
  have hn : 0 < n := by omega
  have hm : 0 < m := by omega
  have hround : ∀ k, r * (m * n) ≤ k ∧ k < (r + 1) * (m * n) ↔ k / n / m = r := by
    intro k
    rw [Nat.div_div_eq_div_mul, mul_comm m n, Nat.div_eq_iff (Nat.mul_pos hn hm), Nat.le_sub_one_iff_lt (by positivity),
      add_mul, one_mul]
  simp only [← and_assoc, hround]
  refine ⟨n * (m * r + i) + j, ?_, fun k hk => ?_⟩
  · dsimp only
    rw [Nat.mul_add_div hn, Nat.div_eq_of_lt hj, Nat.add_zero, Nat.mul_add_div hm, Nat.div_eq_of_lt hi, Nat.mul_add_mod,
      Nat.mul_add_mod, Nat.mod_eq_of_lt hi, Nat.mod_eq_of_lt hj]
    exact ⟨⟨rfl, rfl⟩, rfl⟩
  · obtain ⟨⟨hr, rfl⟩, rfl⟩ := hk
    rw [← hr, Nat.div_add_mod, Nat.div_add_mod]

/-- The state between the sections. -/
theorem exists_sections {hosts ports sockets : List κ} {H P S : List (List Char)} (hargs : args.Holds hosts ports sockets H P S)
    (hH : H ≠ []) (hP : P ≠ []) : ∃ states : ℕ → MysqlPositions κ, mysqlDrvInit args = .ok (states 0) ∧
      ∀ k, (mysqlDrvConnectServer args).solo (step args) (states k) = some (roundRobin H P S k, states (k + 1)) := by
  have hinit := mysqlDrvInit_eq hargs hH hP
  by_cases hS : S = []
  · refine ⟨fun k => ⟨Circular.around hosts (hargs.hosts.ne_nil hH) (k / P.length),
      Circular.around ports (hargs.ports.ne_nil hP) k, args.sockets⟩, ?_, section_ports hargs hH hP hS⟩
    dsimp only
    rw [Nat.zero_div]
    exact hinit
  · exact ⟨fun k => ⟨Circular.around hosts (hargs.hosts.ne_nil hH) 0, Circular.around ports (hargs.ports.ne_nil hP) 0,
      socketPosition args.sockets sockets (hargs.sockets.ne_nil hS) k⟩, hinit, fun k => section_sockets hargs hS k _ _⟩

/-- In every interleaving of connects the sections pick the servers in turn, and each pair of a host and a port once in each
round. No head of a list is read as a value. -/
theorem connects_in_turn {ι : Type} [DecidableEq ι] {hosts ports sockets : List κ} {H P S : List (List Char)}
    (hargs : args.Holds hosts ports sockets H P S) (hH : H ≠ []) (hP : P ≠ []) :
    ∃ positions, mysqlDrvInit args = .ok positions ∧
      (∀ h c, Interleaving (Outcome (LockOp.step (ι := ι) (step args))) (criticalBody (mysqlDrvConnectServer args))
          ⟨positions, none⟩ h c →
        (∀ k server, (sectionAudit h).result k = some server → server = roundRobin H P S k) ∧
        ∀ t item next, c.running t = some ((), .act (LockOp.within (entry item)) next) →
          item ∉ [args.hosts, args.ports, args.sockets]) ∧
      ∀ r i j, i < H.length → j < P.length → ∃! k, r * (H.length * P.length) ≤ k ∧ k < (r + 1) * (H.length * P.length) ∧
        k / P.length % H.length = i ∧ k % P.length = j := by
  obtain ⟨states, hinit, hsections⟩ := exists_sections hargs hH hP
  refine ⟨states 0, hinit, fun h c hrun => ?_, fun r i j => existsUnique_round r⟩
  obtain ⟨hresults, houtcome⟩ := critical_serial hsections hrun
  refine ⟨hresults, fun t item next hrunning hhead => ?_⟩
  obtain ⟨data, hdata⟩ := Option.isSome_iff_exists.mp (houtcome t _ next hrunning)
  obtain ⟨value, hvalue, -⟩ := Option.map_eq_some_iff.mp hdata
  simp only [List.mem_cons, List.not_mem_nil, or_false] at hhead
  rcases hhead with rfl | rfl | rfl
  · rw [hargs.hosts.head_data] at hvalue
    cases hvalue
  · rw [hargs.ports.head_data] at hvalue
    cases hvalue
  · rw [hargs.sockets.head_data] at hvalue
    cases hvalue

/-- One host and two ports. -/
def oneHost : MysqlArgs ℕ := .make ⟨⟨id, id⟩, fun _ => none⟩ (0, [(3, ['a'])]) (1, [(4, ['1']), (5, ['2'])]) (2, [])

theorem oneHost_holds : oneHost.Holds [3] [4, 5] [] [['a']] [['1'], ['2']] [] := MysqlArgs.make_holds _ (by decide)

/-- The second thread waits until the first has left its section, and is the first to return. -/
theorem connects_in_turn_two : ∃ h c positions, mysqlDrvInit oneHost = .ok positions ∧
    Interleaving (Outcome (LockOp.step (ι := Fin 2) (step oneHost))) (criticalBody (mysqlDrvConnectServer oneHost))
      ⟨positions, none⟩ h c ∧
    (sectionAudit h).result 0 = some { host := ['a'], port := 1 } ∧ (sectionAudit h).result 1 = some { host := ['a'], port := 2 } := by
  obtain ⟨positions, hinit, hruns, -⟩ := connects_in_turn (ι := Fin 2) oneHost_holds (by decide) (by decide)
  obtain rfl : ⟨3, 4, 2⟩ = positions := Except.ok.inj hinit
  obtain ⟨w, hplay, hfirst, hsecond⟩ : ∃ w, play (LockOp.step (step oneHost)) (criticalBody (mysqlDrvConnectServer oneHost))
      ([.call 0 (), .call 1 ()] ++ List.replicate 9 (.next 0) ++ List.replicate 17 (.next 1) ++ [.next 0])
      ([], ⟨(⟨⟨3, 4, 2⟩, none⟩ : Mutexed (MysqlPositions ℕ) (Fin 2)), fun _ => none⟩) = some w ∧
      ((sectionAudit w.1).result 0).isSome ∧ ((sectionAudit w.1).result 1).isSome := ⟨_, rfl, rfl, rfl⟩
  have hrun := play_interleaving .nil hplay
  obtain ⟨first, hfirst⟩ := Option.isSome_iff_exists.mp hfirst
  obtain ⟨second, hsecond⟩ := Option.isSome_iff_exists.mp hsecond
  obtain ⟨hresults, -⟩ := hruns _ _ hrun
  refine ⟨_, _, _, hinit, hrun, hfirst.trans ?_, hsecond.trans ?_⟩
  · rw [hresults 0 first hfirst]
    decide
  · rw [hresults 1 second hsecond]
    decide

end NuKSM.Sysbench
