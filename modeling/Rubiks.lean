import Rubiks.Start.Layer
import Rubiks.Start.ShuffleCalls
import Rubiks.Start.Order
import Rubiks.Client.Display
import Rubiks.Client.ViewHeap
import Rubiks.Client.Redraw
import Rubiks.Server.Codec
import Rubiks.Server.CommandHeap
import Rubiks.Server.Release
import Rubiks.Server.Tables
import Rubiks.Server.Threads
import Rubiks.Server.Capacity
import Rubiks.Server.Cutoff
import Rubiks.Server.Progress
import Rubiks.Server.Steering
import Rubiks.Server.Screens
import Rubiks.Server.Abandoned
import Rubiks.Server.Connections
