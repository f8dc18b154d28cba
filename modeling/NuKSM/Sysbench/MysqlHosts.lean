import NuKSM.Lib.Circular
import NuKSM.Lib.Critical
import NuKSM.Sysbench.MysqlDriver

/-! # The servers that the MySQL driver connects to (`drv_mysql.c`, `sb_list.h`) -/

namespace NuKSM.Sysbench

variable {κ : Type}

/-- The items of value lists, with the `data` of those that belong to a `value_t`. The heads of the lists do not. -/
structure ValueItems (κ : Type) where
  links : Links κ
  data : κ → Option (List Char)

namespace ValueItems
variable [DecidableEq κ]

/-- `SB_LIST_INIT(&newopt->values)`. -/
def init (v : ValueItems κ) (head : κ) : ValueItems κ := ⟨v.links.init head, Function.update v.data head none⟩

/-- `add_value`, where `item` is in the new `value_t`. -/
def addValue (v : ValueItems κ) (head item : κ) (data : List Char) : ValueItems κ :=
  ⟨v.links.addTail item head, Function.update v.data item (some data)⟩

/-- Some values are added, in their order. -/
def addValues (v : ValueItems κ) (head : κ) (values : List (κ × List Char)) : ValueItems κ :=
  values.foldl (fun v value => v.addValue head value.1 value.2) v

end ValueItems

/-- `args.hosts`, `args.ports` and `args.sockets`. -/
structure MysqlArgs (κ : Type) where
  values : ValueItems κ
  hosts : κ
  ports : κ
  sockets : κ

/-- The options as they are registered and set. -/
def MysqlArgs.make [DecidableEq κ] (v : ValueItems κ) (hosts ports sockets : κ × List (κ × List Char)) : MysqlArgs κ where
  values := ((((((v.init hosts.1).init ports.1).init sockets.1).addValues hosts.1 hosts.2).addValues ports.1 ports.2).addValues
    sockets.1 sockets.2)
  hosts := hosts.1
  ports := ports.1
  sockets := sockets.1

/-- `hosts_pos`, `ports_pos` and `sockets_pos`. -/
structure MysqlPositions (κ : Type) where
  hosts : κ
  ports : κ
  sockets : κ

/-- The part of `mysql_drv_init` with the lists. -/
def mysqlDrvInit [DecidableEq κ] (args : MysqlArgs κ) : Except String (MysqlPositions κ) :=
  if args.values.links.isEmpty args.hosts then .error "No MySQL hosts specified, aborting"
  else if args.values.links.isEmpty args.ports then .error "No MySQL ports specified, aborting"
  else .ok ⟨args.values.links.next args.hosts, args.values.links.next args.ports, args.sockets⟩

inductive MysqlList
  | hosts | ports | sockets
  deriving DecidableEq

namespace MysqlPositions

def get (p : MysqlPositions κ) : MysqlList → κ
  | .hosts => p.hosts
  | .ports => p.ports
  | .sockets => p.sockets

def set (p : MysqlPositions κ) (item : κ) : MysqlList → MysqlPositions κ
  | .hosts => { p with hosts := item }
  | .ports => { p with ports := item }
  | .sockets => { p with sockets := item }

end MysqlPositions

inductive PositionOp (κ : Type)
  | load (list : MysqlList)
  | store (list : MysqlList) (item : κ)
  /-- `SB_LIST_ENTRY(item, value_t, listitem)->data`. -/
  | entry (item : κ)

namespace PositionOp

@[reducible] def Res : PositionOp κ → Type
  | load _ => κ
  | store _ _ => Unit
  | entry _ => List Char

/-- The `data` of a head cannot be read. -/
def step (args : MysqlArgs κ) : (op : PositionOp κ) → MysqlPositions κ → Option (op.Res × MysqlPositions κ)
  | load list, p => some (p.get list, p)
  | store list item, p => some ((), p.set item list)
  | entry item, p => (args.values.data item).map fun data => (data, p)

end PositionOp

/-- The fields of `db_mysql_conn_t` that say where to connect. -/
structure MysqlServer where
  socket : Option (List Char) := none
  host : List Char
  port : ℕ := 0
  deriving DecidableEq

abbrev PositionM (κ : Type) := Thread (PositionOp κ) PositionOp.Res

open Thread PositionOp

variable [DecidableEq κ] (args : MysqlArgs κ)

/-- `pos = SB_LIST_ITEM_NEXT(pos)`. -/
def itemNext (list : MysqlList) : PositionM κ Unit := do
  let pos ← perform (load list)
  perform (store list (args.values.links.next pos))

/-- `pos = SB_LIST_ITEM_NEXT(pos); if (pos == head) pos = SB_LIST_ITEM_NEXT(pos)`. -/
def valueNext (list : MysqlList) (head : κ) : PositionM κ Unit := do
  itemNext args list
  let pos ← perform (load list)
  onlyIf (pos = head) (itemNext args list)

/-- The next port, which after the last one is the first port of the next host. -/
def connectToPort : PositionM κ MysqlServer := do
  let host ← perform (entry (← perform (load .hosts)))
  let port ← perform (entry (← perform (load .ports)))
  itemNext args .ports
  let pos ← perform (load .ports)
  onlyIf (pos = args.ports) do
    valueNext args .hosts args.hosts
    itemNext args .ports
  return { host, port := atoi port }

def connectToSocket : PositionM κ MysqlServer := do
  valueNext args .sockets args.sockets
  let socket ← perform (entry (← perform (load .sockets)))
  return { socket := some socket, host := "localhost".toList }

/-- What `mysql_drv_connect` does while it has locked `pos_mutex`. -/
def mysqlDrvConnectServer : PositionM κ MysqlServer :=
  if args.values.links.isEmpty args.sockets then connectToPort args else connectToSocket args

end NuKSM.Sysbench
