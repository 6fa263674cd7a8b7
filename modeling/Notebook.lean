import Notebook.Confinement.Escape
import Notebook.Errors.FormatString
import Notebook.Errors.StaleText
import Notebook.Groups.Addressing
import Notebook.Groups.Agreement
import Notebook.Groups.Calls
import Notebook.Groups.Complete
import Notebook.Groups.Control
import Notebook.Groups.Deletion
import Notebook.Groups.DiskEffect
import Notebook.Groups.Followed
import Notebook.Groups.Nesting
import Notebook.Groups.Refused
import Notebook.Groups.Resistance
import Notebook.Groups.Routing
import Notebook.Init.Again
import Notebook.Init.Bank
import Notebook.Init.Entries
import Notebook.Init.Insertion
import Notebook.Init.Mirror
import Notebook.Init.RoundTrip
import Notebook.Library.PathTree
import Notebook.Library.Runs
import Notebook.Library.TreePositions
import Notebook.Model.NotebookImpl
import Notebook.Model.NotebookUi
import Notebook.Questions.Context
import Notebook.Questions.Navigation
import Notebook.Questions.Refinement
import Notebook.Questions.ScreenOrder
import Notebook.Screen.Displayed
import Notebook.Screen.Menu
import Notebook.Screen.Opened
import Notebook.Screen.Programs
import Notebook.Screen.ReadThrough
import Notebook.Screen.Users
import Notebook.Sessions.Contents
import Notebook.Sessions.Durable
import Notebook.Sessions.PartlyClosed
import Notebook.Sessions.Persistent
import Notebook.Sessions.Recovered
import Notebook.Sessions.Renamed
import Notebook.Sessions.Reopen
import Notebook.Sessions.Sound
import Notebook.Sessions.Steps
import Notebook.Sessions.Unchanged
import Notebook.Store.Closing
import Notebook.Store.FiniteMap
import Notebook.Store.Records
import Notebook.Store.Registry
import Notebook.Store.SaveLoad
