import Blinky.Lib.Circular
import Blinky.Lib.Alarm
import Blinky.Lib.Tiling
import Blinky.Lib.Interleave
import Blinky.Lib.Text
import Blinky.Lib.Regex
import Blinky.Lib.Shell
import Blinky.Kernel.List
import Blinky.Kernel.ListRefine
import Blinky.Kernel.ListEffects
import Blinky.Kernel.Tasks
import Blinky.Kernel.Placed
import Blinky.Kernel.Walk
import Blinky.Kernel.Run
import Blinky.Kernel.Moves
import Blinky.Kernel.Select
import Blinky.Kernel.Sound
import Blinky.Kernel.Tick
import Blinky.Kernel.Blocking
import Blinky.Kernel.Services
import Blinky.Kernel.Boot
import Blinky.Kernel.Safety
import Blinky.Kernel.Timeline
import Blinky.Kernel.RoundRobin
import Blinky.Kernel.Memory
import Blinky.Kernel.Heap
import Blinky.Hal.Gio
import Blinky.App.Main
import Blinky.App.Leds
import Blinky.RunTests.Script
import Blinky.RunTests.ExitStatus
import Blinky.Lib.Template
import Blinky.RunTests.Gtest
import Blinky.RunTests.Filters
import Blinky.RunTests.Classify
import Blinky.RunTests.Tallies
import Blinky.Lib.Replace
import Blinky.Lib.Path
import Blinky.Build.Discover
import Blinky.Build.Sources
import Blinky.App.Panel
import Blinky.Kernel.HeapTiles
