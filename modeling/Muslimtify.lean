import Muslimtify.CText
import Muslimtify.CMemory
import Muslimtify.CDouble
import Muslimtify.Binary64
import Muslimtify.JsonReader
import Muslimtify.JsonDocument
import Muslimtify.Brackets
import Muslimtify.JsonMemory
import Muslimtify.JsonGrammar
import Muslimtify.JsonLookup
import Muslimtify.StringWriters
import Muslimtify.KeyMatching
import Muslimtify.JsonLayout
import Muslimtify.JsonWriter
import Muslimtify.CivilDays
import Muslimtify.FixedArray
import Muslimtify.Settings
import Muslimtify.ConfigFile
import Muslimtify.ConfigRoundTrip
import Muslimtify.ConfigLayout
import Muslimtify.MalformedConfig
import Muslimtify.Schedule
import Muslimtify.ScheduleKept
import Muslimtify.TriggerCache
import Muslimtify.TriggerPartition
import Muslimtify.CacheFile
import Muslimtify.CacheRoundTrip
import Muslimtify.TornCache
import Muslimtify.TriggerScan
import Muslimtify.Program
import Muslimtify.Detection
import Muslimtify.DaemonCycle
import Muslimtify.SaveSteps
import Muslimtify.TwoSavers
import Muslimtify.SettingsSave
import Muslimtify.LocationFetch
import Muslimtify.Handle
import Muslimtify.ReachableSettings
import Muslimtify.CycleRun
import Muslimtify.DaemonRuns
import Muslimtify.AtMostOnce
import Muslimtify.CatchUp
import Muslimtify.Transitions
import Muslimtify.DaemonLoop
import Muslimtify.LoopDay
import Muslimtify.JsonPrinting
import Muslimtify.SettingsView
import Muslimtify.Display
import Muslimtify.SettingsDisplay
import Muslimtify.TextTables
import Muslimtify.DisplayTables
import Muslimtify.DisplayPlain
import Muslimtify.SettingsTables
import Muslimtify.SaveRace
import Muslimtify.LostUpdate
import Muslimtify.NewLocation
import Muslimtify.HostClock
import Muslimtify.NextPrayer
import Muslimtify.RefreshBackoff
import Muslimtify.ReportedRepeats
import Muslimtify.Calendar
import Muslimtify.DateRange
import Muslimtify.AnnouncedTime
import Muslimtify.FiringLoop
import Muslimtify.MinuteRange
import Muslimtify.NetworkReply
import Muslimtify.GpsdClient
import Muslimtify.ServiceUnit
import Muslimtify.CityName
import Muslimtify.DateArgument
import Muslimtify.LocationAge
import Muslimtify.LinkedList
import Muslimtify.BumpArena
import Muslimtify.Arena
import Muslimtify.ArenaRuns
