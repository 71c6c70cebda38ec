import Miredo.Basic
import Miredo.Tunnel.Handle
import Miredo.Tunnel.Config
import Miredo.Tunnel.Packet
import Miredo.Tunnel.Lifetime
import Miredo.Worker.Run
import Miredo.Worker.Tunnel
import Miredo.Supervisor.State
import Miredo.Supervisor.Step
import Miredo.Supervisor.Invariant
import Miredo.Supervisor.Signals
import Miredo.Supervisor.Outcome
import Miredo.Supervisor.Bridge
import Miredo.Supervisor.Conf
